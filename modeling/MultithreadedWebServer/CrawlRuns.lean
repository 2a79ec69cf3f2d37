import MultithreadedWebServer.FileCrawler
import MultithreadedWebServer.InvertedIndex
import MultithreadedWebServer.Registration
import MultithreadedWebServer.WordTables

/-!
# Crawling builds the inverted index

`Crawled` ties the document table and the index to the files that have been handled so far:
the files with a table of words have the ids from 1 on, and the postings of the index are the
words of these tables, with their positions. One `HandleFile` preserves it, since the id is
new to the index, and since the drain loop takes every word out of the table once.
-/

namespace MultithreadedWebServer

/-! ## Tables of words -/

/-- The table has the word, with this list of positions. -/
def WordHT.Maps (tab : WordHT) (word : CString) (positions : LinkedList UInt64) : Prop :=
  ∃ wp, tab.get? (wordKey word) = some wp ∧ wp.word = word ∧ wp.positions = positions

/-- The words of a table. -/
def WordHT.words (tab : WordHT) : List CString :=
  tab.table.entries.filterMap fun kv => (tab.records.read kv.value).map WordPositions.word

/-- The table of words of a file; `none` is `NULL`. -/
def wordTable (file : FileSource) : Option WordHT :=
  match buildWordHT file [] with
  | .ok (tab, _) => tab
  | .error _ => none

theorem buildWordHT_yields_iff {file : FileSource} {res : Option WordHT} :
    Yields (buildWordHT file) res ↔ wordTable file = res := by
  obtain ⟨tab, hrun, -⟩ := buildWordHT_sound file
  have htab : wordTable file = tab := by
    have hrun' : buildWordHT file [] = .ok (tab, []) := hrun
    rw [wordTable, hrun']
  constructor
  · intro h
    rw [htab]
    exact (hrun.unique h).1
  · rintro rfl
    rw [htab]
    exact hrun

theorem wordTable_sound {file : FileSource} {tab : WordHT} (h : wordTable file = some tab) :
    tab.Sound := by
  obtain ⟨res, hrun, hsound⟩ := buildWordHT_sound file
  exact hsound tab ((buildWordHT_yields_iff.mp hrun).symm.trans h)

/-- Of two lists in step, what is in the first has a partner in the second. -/
theorem exists_partner {α β : Type} {R : α → β → Prop} {xs : List α} {ys : List β}
    (h : List.Forall₂ R xs ys) {x : α} (hx : x ∈ xs) : ∃ y ∈ ys, R x y := by
  induction h with
  | nil => cases hx
  | cons hr _ ih =>
    rcases List.mem_cons.mp hx with rfl | hx
    · exact ⟨_, List.mem_cons_self, hr⟩
    · obtain ⟨y, hy, hxy⟩ := ih hx
      exact ⟨y, List.mem_cons_of_mem _ hy, hxy⟩

section Table

variable {tab : WordHT}

theorem WordHT.Maps.mem_words (htab : tab.Sound) {word : CString} {positions : LinkedList UInt64}
    (h : tab.Maps word positions) : word ∈ tab.words := by
  obtain ⟨wp, hget, rfl, -⟩ := h
  obtain ⟨a, hmem, hread⟩ := htab.records.exists_entry hget
  refine List.mem_filterMap.mpr ⟨_, hmem, ?_⟩
  rw [hread]
  rfl

/-! ## The postings of a table -/

/-- A pair of the table, and the posting that it becomes. -/
structure Carries (records : Arena WordPositions) (docID : UInt64) (kv : HTKeyValue Addr)
    (p : Posting) : Prop where
  /-- the word and its positions -/
  read : records.read kv.value = some ⟨p.word, p.positions⟩
  /-- are filed under the hash of the word -/
  key : wordKey p.word = kv.key
  /-- the document -/
  docid : p.docid = docID

/-- Every pair of a table of words becomes a posting. -/
theorem WordHT.Sound.exists_postings (h : tab.Sound) (docID : UInt64) :
    ∃ ps, List.Forall₂ (Carries tab.records docID) tab.table.entries ps := by
  have hall : ∀ kv ∈ tab.table.entries, ∃ p, Carries tab.records docID kv p := by
    intro kv hkv
    obtain ⟨wp, hread⟩ := Option.isSome_iff_exists.mp (h.records.live kv hkv)
    have hget := (tab.get?_of_mem h.records.table hkv).trans hread
    obtain ⟨hwf, hne⟩ := h.lists _ _ hget
    exact ⟨⟨wp.word, docID, wp.positions, hwf, hne⟩, hread, (h.word _ _ hget).symm, rfl⟩
  generalize tab.table.entries = entries at hall
  induction entries with
  | nil => exact ⟨[], .nil⟩
  | cons kv entries ih =>
    obtain ⟨p, hp⟩ := hall kv List.mem_cons_self
    obtain ⟨ps, hps⟩ := ih fun kv' hkv' => hall kv' (List.mem_cons_of_mem _ hkv')
    exact ⟨p :: ps, .cons hp hps⟩

/-- No two pairs share an address. -/
theorem WordHT.Sound.nodup_values (h : tab.Sound) :
    (tab.table.entries.map HTKeyValue.value).Nodup := by
  have hdistinct : (tab.table.entries.map HTKeyValue.key).Nodup := h.records.table.distinct
  refine List.Nodup.map_on (fun kv hkv kv' hkv' heq => ?_) (List.Nodup.of_map _ hdistinct)
  exact List.inj_on_of_nodup_map hdistinct hkv hkv' (h.records.apart kv hkv kv' hkv' heq)

/-- The postings of a table are its words. -/
theorem carried_iff (h : tab.Sound) {docID : UInt64} {ps : List Posting}
    (hps : List.Forall₂ (Carries tab.records docID) tab.table.entries ps) {word : CString}
    {docid : UInt64} {positions : LinkedList UInt64} :
    (∃ p ∈ ps, p.word = word ∧ p.docid = docid ∧ p.positions = positions) ↔
      docid = docID ∧ tab.Maps word positions := by
  constructor
  · rintro ⟨p, hp, rfl, rfl, rfl⟩
    obtain ⟨kv, hkv, hcarries⟩ := exists_partner hps.flip hp
    refine ⟨hcarries.docid, ⟨p.word, p.positions⟩, ?_, rfl, rfl⟩
    rw [hcarries.key]
    exact (tab.get?_of_mem h.records.table hkv).trans hcarries.read
  · rintro ⟨rfl, wp, hget, rfl, rfl⟩
    obtain ⟨a, hmem, hread⟩ := h.records.exists_entry hget
    obtain ⟨p, hp, hcarries⟩ := exists_partner hps hmem
    obtain rfl := Option.some.inj (hread.symm.trans hcarries.read)
    exact ⟨p, hp, rfl, hcarries.docid, rfl⟩

end Table

/-! ## The drain loop -/

theorem carries_free {records : Arena WordPositions} {docID : UInt64} {a : Addr} :
    ∀ {rest : List (HTKeyValue Addr)} {ps : List Posting}, a ∉ rest.map HTKeyValue.value →
    List.Forall₂ (Carries records docID) rest ps →
    List.Forall₂ (Carries (records.free a) docID) rest ps
  | _, _, _, .nil => .nil
  | kv :: rest, p :: ps, hne, .cons h hrest => by
    rw [List.map_cons, List.mem_cons, not_or] at hne
    exact .cons ⟨(Arena.read_free_ne (Ne.symm hne.1)).trans h.read, h.key, h.docid⟩
      (carries_free hne.2 hrest)

/-- The drain loop takes every word out of the table, and adds it to the index. -/
theorem drainLoop_yields {docID : UInt64} :
    ∀ {rest : List (HTKeyValue Addr)} {ps adds : List Posting}
    {fuel : ℕ} {tab : WordHT} {it : HTIter} {index : MemIndex},
    tab.table.WF → Cursor tab.table it rest → tab.table.entries.Perm rest →
    (rest.map HTKeyValue.value).Nodup → List.Forall₂ (Carries tab.records docID) rest ps →
    rest.length < fuel → Inverted index adds → Postable (adds ++ ps) →
    ∃ tab' index', Yields (drainLoop docID fuel tab it index) (tab', index') ∧ tab'.table.WF ∧
      tab'.table.entries = [] ∧ Inverted index' (adds ++ ps)
  | _, _, _, 0, _, _, _, _, _, _, _, _, hfuel, _, _ => absurd hfuel (Nat.not_lt_zero _)
  | [], _, adds, fuel + 1, tab, it, index, hwf, _, hperm, _, hps, _, hindex, _ => by
    obtain rfl := List.forall₂_nil_left_iff.mp hps
    have hnil : tab.table.entries = [] := hperm.eq_nil
    have hzero : ¬ 0 < numElementsInHashTable tab.table := by
      rw [numElementsInHashTable, hwf.count, hnil]
      exact Nat.lt_irrefl 0
    refine ⟨tab, index, ?_, hwf, hnil, ?_⟩
    · rw [drainLoop, if_neg hzero]
      rfl
    · rwa [List.append_nil]
  | kv :: rest, ps, adds, fuel + 1, tab, it, index, hwf, hcursor, hperm, hnodup, hps, hfuel, hindex,
      hpost => by
    obtain ⟨p, ps, hcarries, hrest, rfl⟩ := List.forall₂_cons_left_iff.mp hps
    have hpos : 0 < numElementsInHashTable tab.table := by
      rw [numElementsInHashTable, hwf.count, hperm.length_eq]
      exact Nat.succ_pos _
    obtain ⟨table, it', hdelete, hwf', hcursor', hperm', -⟩ := htIteratorDelete_yields hwf hcursor
    rw [List.append_cons] at hpost ⊢
    obtain ⟨index₁, hadd, hindex₁⟩ := hindex.add hpost.left
    rw [hcarries.docid] at hadd
    rw [List.map_cons, List.nodup_cons] at hnodup
    let tab₁ : WordHT := ⟨table, tab.records.free kv.value⟩
    have hwf₁ : tab₁.table.WF := hwf'
    obtain ⟨tab', index', hloop, h'⟩ := drainLoop_yields hwf₁ hcursor'
      (hperm'.symm.trans hperm).cons_inv hnodup.2 (carries_free hnodup.1 hrest)
      (Nat.lt_of_succ_lt_succ hfuel) hindex₁ hpost
    refine ⟨tab', index', ?_, h'⟩
    rw [drainLoop, if_pos hpos]
    refine hdelete.bind (Run.Returns.bind (a := kv.value) rfl ?_)
    rw [deref_some hcarries.read, Run.pure_bind]
    refine hadd.bind (Run.Returns.verify rfl ?_)
    rw [release_some hcarries.read, Run.pure_bind]
    exact hloop

/-- The drain loop of `HandleFile` on this file, if it gets there, ends with an empty table. -/
def DrainsEmpty (fpath : CString) (file : FileSource) (doctable : DocTable) (index : MemIndex) :
    Prop :=
  ∀ tab, Yields (buildWordHT file) (some tab) → ∃ docID doctable' it tab' index',
    Yields (dtRegisterDocumentName doctable fpath) (docID, doctable') ∧
    Yields (hashTableMakeIterator tab.table) (some it) ∧
    Yields (drainLoop docID (tab.table.numElements + 1) tab it index) (tab', index') ∧
    numElementsInHashTable tab'.table = 0 ∧ tab'.table.entries = []

section Handle

variable {fpath : CString} {file : FileSource} {dt : DocTable} {index : MemIndex}

/-- Without a table of words `HandleFile` does nothing. -/
theorem handleFile_none (h : wordTable file = none) :
    Yields (handleFile fpath file dt index) (dt, index) ∧ DrainsEmpty fpath file dt index := by
  refine ⟨(buildWordHT_yields_iff.mpr h).bind rfl, fun tab htab => ?_⟩
  rw [buildWordHT_yields_iff, h] at htab
  cases htab

/-- With one, it registers the file and adds the words. -/
theorem handleFile_some {names : List CString} {adds ps : List Posting} {tab : WordHT}
    (h : wordTable file = some tab) (hdocs : Registered dt names)
    (hroom : names.length + 1 < 2 ^ 32) (hnew : ∀ name ∈ names, wordKey name ≠ wordKey fpath)
    (hindex : Inverted index adds)
    (hps : List.Forall₂ (Carries tab.records (docIdOf names.length)) tab.table.entries ps)
    (hpost : Postable (adds ++ ps)) :
    (∃ dt' index', Yields (handleFile fpath file dt index) (dt', index') ∧
      Registered dt' (names ++ [fpath]) ∧ Inverted index' (adds ++ ps)) ∧
    DrainsEmpty fpath file dt index := by
  have htab := wordTable_sound h
  obtain ⟨dt', hregister, hdocs'⟩ := hdocs.register hroom hnew
  obtain ⟨it, hmake, hcursor⟩ := hashTableMakeIterator_yields htab.records.table
  have hfuel : tab.table.entries.length < tab.table.numElements + 1 := by
    rw [htab.records.table.count]
    exact Nat.lt_succ_self _
  obtain ⟨tab', index', hloop, hwf', hnil, hindex'⟩ := drainLoop_yields htab.records.table hcursor
    (List.Perm.refl _) htab.nodup_values hps hfuel hindex hpost
  have hbuild := buildWordHT_yields_iff.mpr h
  constructor
  · refine ⟨dt', index', ?_, hdocs', hindex'⟩
    refine hbuild.bind (hregister.bind (hmake.bind (hloop.bind ?_)))
    dsimp only
    rw [freeWordHT, freeHashTable_spec hwf', Run.pure_bind]
    rfl
  · intro tab₀ htab₀
    obtain ⟨heq, -⟩ := htab₀.unique hbuild
    obtain rfl := Option.some.inj heq
    refine ⟨_, dt', it, tab', index', hregister, hmake, hloop, ?_, hnil⟩
    rw [numElementsInHashTable, hwf'.count, hnil]
    rfl

end Handle

/-! ## Runs -/

/-- The files with a table of words, with these tables. -/
def parsedFiles (files : List (CString × FileSource)) : List (CString × WordHT) :=
  files.filterMap fun f => (wordTable f.2).map fun tab => (f.1, tab)

/-- The words of all tables. -/
def wordsSeen (files : List (CString × FileSource)) : List CString :=
  (parsedFiles files).flatMap fun f => f.2.words

/-- What is so after the files have been handled. -/
structure Crawled (files : List (CString × FileSource)) (dt : DocTable) (index : MemIndex)
    (adds : List Posting) : Prop where
  /-- the files with tables have their ids -/
  docs : Registered dt ((parsedFiles files).map Prod.fst)
  /-- the index has the postings -/
  index : Inverted index adds
  /-- one for a hash and a document -/
  distinct : DistinctPostings adds
  /-- and these are the words of the tables -/
  postings : ∀ word docid positions,
    (∃ p ∈ adds, p.word = word ∧ p.docid = docid ∧ p.positions = positions) ↔
      ∃ i f, (parsedFiles files)[i]? = some f ∧ docid = docIdOf i ∧ f.2.Maps word positions

section Run

variable {files : List (CString × FileSource)} {dt : DocTable} {index : MemIndex}
  {adds ps : List Posting} {tab : WordHT}

theorem mem_parsedFiles {f : CString × WordHT} :
    f ∈ parsedFiles files ↔ ∃ file, (f.1, file) ∈ files ∧ wordTable file = some f.2 := by
  rw [parsedFiles, List.mem_filterMap]
  constructor
  · rintro ⟨⟨fpath, file⟩, hmem, hf⟩
    obtain ⟨tab, htab, rfl⟩ := Option.map_eq_some_iff.mp hf
    exact ⟨file, hmem, htab⟩
  · rintro ⟨file, hmem, htab⟩
    exact ⟨_, hmem, Option.map_eq_some_iff.mpr ⟨_, htab, rfl⟩⟩

theorem parsedFiles_sound {f : CString × WordHT} (h : f ∈ parsedFiles files) : f.2.Sound := by
  obtain ⟨file, -, htab⟩ := mem_parsedFiles.mp h
  exact wordTable_sound htab

theorem parsedFiles_none {fpath : CString} {file : FileSource} (h : wordTable file = none) :
    parsedFiles (files ++ [(fpath, file)]) = parsedFiles files := by
  rw [parsedFiles, List.filterMap_append, List.filterMap_cons, h]
  exact List.append_nil _

theorem parsedFiles_some {fpath : CString} {file : FileSource} (h : wordTable file = some tab) :
    parsedFiles (files ++ [(fpath, file)]) = parsedFiles files ++ [(fpath, tab)] := by
  rw [parsedFiles, List.filterMap_append, List.filterMap_cons, h]
  rfl

/-- What is at a place of a list with one more element. -/
theorem exists_getElem?_concat {α : Type} {xs : List α} {x : α} {p : ℕ → α → Prop} :
    (∃ i y, (xs ++ [x])[i]? = some y ∧ p i y) ↔
      (∃ i y, xs[i]? = some y ∧ p i y) ∨ p xs.length x := by
  constructor
  · rintro ⟨i, y, hy, hp⟩
    rcases Nat.lt_trichotomy i xs.length with hlt | rfl | hgt
    · rw [List.getElem?_append_left hlt] at hy
      exact .inl ⟨i, y, hy, hp⟩
    · rw [List.getElem?_concat_length] at hy
      obtain rfl := Option.some.inj hy
      exact .inr hp
    · rw [List.getElem?_eq_none (by rw [List.length_append]; exact hgt)] at hy
      cases hy
  · rintro (⟨i, y, hy, hp⟩ | hp)
    · exact ⟨i, y, (List.getElem?_append_left (List.getElem?_eq_some_iff.mp hy).1).trans hy, hp⟩
    · exact ⟨xs.length, x, List.getElem?_concat_length, hp⟩

/-! ## Room in the index -/

/-- Postings of few words and documents are postable. -/
theorem postable_of {words : List CString} {n : ℕ} (hd : DistinctPostings adds)
    (hwords : ∀ p ∈ adds, p.word ∈ words) (hcount : words.toFinset.card < 2 ^ 32)
    (hdocs : ∀ p ∈ adds, ∃ i < n, p.docid = docIdOf i) (hn : n < 2 ^ 32) : Postable adds where
  distinct := hd
  words := by
    have hsub : (adds.map fun p => wordKey p.word).toFinset ⊆ words.toFinset.image wordKey := by
      intro key hkey
      rw [List.mem_toFinset, List.mem_map] at hkey
      obtain ⟨p, hp, rfl⟩ := hkey
      exact Finset.mem_image_of_mem _ (List.mem_toFinset.mpr (hwords p hp))
    exact Nat.lt_of_le_of_lt ((Finset.card_le_card hsub).trans Finset.card_image_le) hcount
  docs := fun key => by
    have hsub : (adds.filter fun p => wordKey p.word = key).map Posting.docid ⊆
        (List.range n).map docIdOf := by
      intro docid hdocid
      obtain ⟨p, hp, rfl⟩ := List.mem_map.mp hdocid
      obtain ⟨i, hi, heq⟩ := hdocs p (List.mem_of_mem_filter hp)
      rw [heq]
      exact List.mem_map_of_mem (List.mem_range.mpr hi)
    have hle := (List.subperm_of_subset (hd.nodup_docids key) hsub).length_le
    rw [List.length_map, List.length_map, List.length_range] at hle
    omega

theorem carries_keys {records : Arena WordPositions} {docID : UInt64}
    {entries : List (HTKeyValue Addr)} (h : List.Forall₂ (Carries records docID) entries ps) :
    ps.map (fun p => wordKey p.word) = entries.map HTKeyValue.key := by
  induction h with
  | nil => rfl
  | cons hc _ ih => rw [List.map_cons, List.map_cons, hc.key, ih]

theorem Crawled.docid_lt (h : Crawled files dt index adds) {p : Posting} (hp : p ∈ adds) :
    ∃ i < (parsedFiles files).length, p.docid = docIdOf i := by
  obtain ⟨i, f, hf, hdocid, -⟩ := (h.postings _ _ _).mp ⟨p, hp, rfl, rfl, rfl⟩
  exact ⟨i, (List.getElem?_eq_some_iff.mp hf).1, hdocid⟩

theorem Crawled.word_seen (h : Crawled files dt index adds) {p : Posting} (hp : p ∈ adds) :
    p.word ∈ wordsSeen files := by
  obtain ⟨i, f, hf, -, hmaps⟩ := (h.postings _ _ _).mp ⟨p, hp, rfl, rfl, rfl⟩
  have hmem := List.mem_of_getElem? hf
  exact List.mem_flatMap.mpr ⟨f, hmem, hmaps.mem_words (parsedFiles_sound hmem)⟩

/-- The postings of a new document are new. -/
theorem Crawled.distinct_append (h : Crawled files dt index adds)
    (hroom : (parsedFiles files).length + 1 < 2 ^ 32) (htab : tab.Sound)
    (hps : List.Forall₂ (Carries tab.records (docIdOf (parsedFiles files).length))
      tab.table.entries ps) : DistinctPostings (adds ++ ps) := by
  rw [DistinctPostings, List.map_append]
  refine List.nodup_append.mpr ⟨h.distinct, ?_, fun x hx y hy heq => ?_⟩
  · have hkeys : (ps.map fun p => wordKey p.word).Nodup := by
      rw [carries_keys hps]
      exact htab.records.table.distinct
    refine List.Nodup.of_map Prod.fst ?_
    rw [List.map_map]
    exact hkeys
  · obtain ⟨p, hp, rfl⟩ := List.mem_map.mp hx
    obtain ⟨q, hq, rfl⟩ := List.mem_map.mp hy
    obtain ⟨i, hi, hdocid⟩ := h.docid_lt hp
    obtain ⟨kv, -, hcarries⟩ := exists_partner hps.flip hq
    have hsame : docIdOf i = docIdOf (parsedFiles files).length := by
      rw [← hdocid, ← hcarries.docid]
      exact (Prod.mk.inj heq).2
    have hi' := docIdOf_inj (by omega) hroom hsame
    omega

/-! ## One file after the other -/

/-- The counters of the tables are wide enough: fewer than `2 ^ 32` documents, and words. -/
structure FitsTables (files : List (CString × FileSource)) : Prop where
  /-- the documents -/
  docs : (parsedFiles files).length < 2 ^ 32
  /-- the words -/
  words : (wordsSeen files).toFinset.card < 2 ^ 32

theorem FitsTables.left {more : List (CString × FileSource)} (h : FitsTables (files ++ more)) :
    FitsTables files where
  docs := by
    have hdocs := h.docs
    rw [parsedFiles, List.filterMap_append, List.length_append] at hdocs
    exact Nat.lt_of_le_of_lt (Nat.le_add_right _ _) hdocs
  words := by
    refine Nat.lt_of_le_of_lt (Finset.card_le_card fun word hword => ?_) h.words
    rw [List.mem_toFinset] at hword ⊢
    rw [wordsSeen, parsedFiles, List.filterMap_append, List.flatMap_append]
    exact List.mem_append_left _ hword

/-- `HandleFile` on one more file. -/
theorem Crawled.step (h : Crawled files dt index adds) {fpath : CString} {file : FileSource}
    (hnew : ∀ f ∈ files, wordKey f.1 ≠ wordKey fpath)
    (hfits : FitsTables (files ++ [(fpath, file)])) :
    (∃ dt' index' adds', Yields (handleFile fpath file dt index) (dt', index') ∧
      Crawled (files ++ [(fpath, file)]) dt' index' adds') ∧ DrainsEmpty fpath file dt index := by
  cases htable : wordTable file with
  | none =>
    have hnone : Yields (handleFile fpath file dt index) (dt, index) ∧
        DrainsEmpty fpath file dt index := handleFile_none htable
    have hsame : parsedFiles (files ++ [(fpath, file)]) = parsedFiles files :=
      parsedFiles_none htable
    refine ⟨⟨dt, index, adds, hnone.1, ?_⟩, hnone.2⟩
    exact ⟨by rw [hsame]; exact h.docs, h.index, h.distinct, by rw [hsame]; exact h.postings⟩
  | some tab =>
    have htab := wordTable_sound htable
    have hparsed : parsedFiles (files ++ [(fpath, file)]) = parsedFiles files ++ [(fpath, tab)] :=
      parsedFiles_some htable
    obtain ⟨ps, hps⟩ := htab.exists_postings (docIdOf (parsedFiles files).length)
    have hroom : (parsedFiles files).length + 1 < 2 ^ 32 := by
      have hdocs := hfits.docs
      rw [hparsed, List.length_append] at hdocs
      exact hdocs
    -- the postings that there will be
    have hpostings : ∀ word docid positions, (∃ p ∈ adds ++ ps, p.word = word ∧ p.docid = docid ∧
        p.positions = positions) ↔ ∃ i f, (parsedFiles (files ++ [(fpath, file)]))[i]? = some f ∧
          docid = docIdOf i ∧ f.2.Maps word positions := by
      intro word docid positions
      have hlast : (∃ i f, (parsedFiles files ++ [(fpath, tab)])[i]? = some f ∧
          docid = docIdOf i ∧ f.2.Maps word positions) ↔ _ :=
        exists_getElem?_concat (p := fun (i : ℕ) (f : CString × WordHT) => docid = docIdOf i ∧
          f.2.Maps word positions)
      rw [hparsed, hlast, ← h.postings, ← carried_iff htab hps]
      simp only [List.mem_append, or_and_right, exists_or]
    have hdistinct := h.distinct_append hroom htab hps
    have hafter : ∀ p ∈ adds ++ ps, p.word ∈ wordsSeen (files ++ [(fpath, file)]) ∧
        ∃ i < (parsedFiles (files ++ [(fpath, file)])).length, p.docid = docIdOf i := by
      intro p hp
      obtain ⟨i, f, hf, hdocid, hmaps⟩ := (hpostings _ _ _).mp ⟨p, hp, rfl, rfl, rfl⟩
      have hmem := List.mem_of_getElem? hf
      exact ⟨List.mem_flatMap.mpr ⟨f, hmem, hmaps.mem_words (parsedFiles_sound hmem)⟩, i,
        (List.getElem?_eq_some_iff.mp hf).1, hdocid⟩
    have hpost : Postable (adds ++ ps) := postable_of hdistinct (fun p hp => (hafter p hp).1)
      hfits.words (fun p hp => (hafter p hp).2) hfits.docs
    have hnames : ∀ name ∈ (parsedFiles files).map Prod.fst, wordKey name ≠ wordKey fpath := by
      intro name hname
      obtain ⟨f, hf, rfl⟩ := List.mem_map.mp hname
      obtain ⟨file', hmem, -⟩ := mem_parsedFiles.mp hf
      exact hnew _ hmem
    rw [← List.length_map (f := Prod.fst)] at hroom hps
    obtain ⟨⟨dt', index', hrun, hdocs', hindex'⟩, hdrains⟩ := handleFile_some htable h.docs hroom
      hnames h.index hps hpost
    refine ⟨⟨dt', index', adds ++ ps, hrun, ?_, hindex', hdistinct, hpostings⟩, hdrains⟩
    rw [hparsed, List.map_append]
    exact hdocs'

/-- A run over the files that are left. -/
theorem handleFiles_yields : ∀ (rest : List (CString × FileSource))
    {done : List (CString × FileSource)} {dt : DocTable} {index : MemIndex} {adds : List Posting},
    Crawled done dt index adds → ((done ++ rest).map fun f => wordKey f.1).Nodup →
    FitsTables (done ++ rest) → ∃ dt' index' adds',
      Yields (handleFiles rest dt index) (dt', index') ∧ Crawled (done ++ rest) dt' index' adds'
  | [], done, dt, index, adds, h, _, _ => by
    rw [List.append_nil]
    exact ⟨dt, index, adds, rfl, h⟩
  | (fpath, file) :: rest, done, dt, index, adds, h, hkeys, hfits => by
    have hnew : ∀ f ∈ done, wordKey f.1 ≠ wordKey fpath := by
      intro f hf
      rw [List.map_append, List.nodup_append] at hkeys
      exact hkeys.2.2 _ (List.mem_map_of_mem hf) _ List.mem_cons_self
    rw [List.append_cons] at hkeys hfits ⊢
    obtain ⟨⟨dt₁, index₁, adds₁, hrun, h₁⟩, -⟩ := h.step hnew hfits.left
    obtain ⟨dt', index', adds', hrest, h'⟩ := handleFiles_yields rest h₁ hkeys hfits
    exact ⟨dt', index', adds', hrun.bind hrest, h'⟩

/-- A run over all files. -/
theorem crawl_yields (hkeys : (files.map fun f => wordKey f.1).Nodup) (hfits : FitsTables files) :
    ∃ dt index adds, Yields (crawl files) (dt, index) ∧ Crawled files dt index adds := by
  obtain ⟨dt, hdocs, hregistered⟩ := allocateDocTable_yields
  obtain ⟨index, hindex, hwf, hempty, hnokeys⟩ := allocateMemIndex_yields
  have h : Crawled [] dt index [] := by
    refine ⟨hregistered, inverted_nil hwf hempty hnokeys, List.nodup_nil,
      fun word docid positions =>
      iff_of_false ?_ ?_⟩
    · rintro ⟨p, hp, -⟩
      cases hp
    · rintro ⟨i, f, hf, -⟩
      cases hf
  obtain ⟨dt', index', adds, hrun, h'⟩ := handleFiles_yields files h hkeys hfits
  exact ⟨dt', index', adds, hdocs.bind (hindex.bind hrun), h'⟩

/-! ## The inverted index -/

/-- The document has this id. -/
def DocTable.Assigns (dt : DocTable) (docid : UInt64) (fpath : CString) : Prop :=
  (dtGetDocidTable dt).toFinmap.lookup docid = some fpath

theorem Crawled.assigns_iff (h : Crawled files dt index adds) {docid : UInt64} {fpath : CString} :
    dt.Assigns docid fpath ↔
      ∃ i tab, (parsedFiles files)[i]? = some (fpath, tab) ∧ docid = docIdOf i := by
  rw [DocTable.Assigns, h.docs.lookup_iff]
  constructor
  · rintro ⟨i, hname, hdocid⟩
    rw [List.getElem?_map, Option.map_eq_some_iff] at hname
    obtain ⟨⟨fpath', tab⟩, hf, rfl⟩ := hname
    exact ⟨i, tab, hf, hdocid⟩
  · rintro ⟨i, tab, hf, hdocid⟩
    refine ⟨i, ?_, hdocid⟩
    rw [List.getElem?_map, hf]
    rfl

/-- A path names one file. -/
theorem file_unique (hpaths : (files.map Prod.fst).Nodup) {fpath : CString}
    {file file' : FileSource} (h : (fpath, file) ∈ files) (h' : (fpath, file') ∈ files) :
    file = file' :=
  (Prod.mk.inj (List.inj_on_of_nodup_map hpaths h h' rfl)).2

/-- The paths of the files with a table differ. -/
theorem nodup_parsedFiles (hpaths : (files.map Prod.fst).Nodup) :
    ((parsedFiles files).map Prod.fst).Nodup := by
  have hsub : ((parsedFiles files).map Prod.fst).Sublist (files.map Prod.fst) := by
    induction files with
    | nil => exact .slnil
    | cons f files ih =>
      rw [List.map_cons, List.nodup_cons] at hpaths
      have hrest := ih hpaths.2
      rw [parsedFiles, List.filterMap_cons]
      cases wordTable f.2 with
      | none => exact hrest.cons _
      | some tab => exact hrest.cons_cons _
  exact hsub.nodup hpaths

/-- The index of a crawl: a word has a list of positions in a document exactly if the document
is a file whose table has them. -/
theorem Crawled.maps_iff (h : Crawled files dt index adds)
    (hpaths : (files.map Prod.fst).Nodup) (hwords : HashesApart (wordsSeen files)) {word : CString}
    {docid : UInt64} {positions : LinkedList UInt64} :
    index.Maps word docid positions ↔ ∃ fpath file tab, (fpath, file) ∈ files ∧
      dt.Assigns docid fpath ∧ Yields (buildWordHT file) (some tab) ∧ tab.Maps word positions := by
  have hapart : HashesApart (adds.map Posting.word) := by
    intro w hw w' hw' hkey
    obtain ⟨p, hp, rfl⟩ := List.mem_map.mp hw
    obtain ⟨q, hq, rfl⟩ := List.mem_map.mp hw'
    exact hwords _ (h.word_seen hp) _ (h.word_seen hq) hkey
  rw [h.index.maps_iff hapart, h.postings]
  constructor
  · rintro ⟨i, ⟨fpath, tab⟩, hf, hdocid, hmaps⟩
    obtain ⟨file, hmem, htable⟩ := mem_parsedFiles.mp (List.mem_of_getElem? hf)
    exact ⟨fpath, file, tab, hmem, h.assigns_iff.mpr ⟨i, tab, hf, hdocid⟩,
      buildWordHT_yields_iff.mpr htable, hmaps⟩
  · rintro ⟨fpath, file, tab, hmem, hassigns, hbuild, hmaps⟩
    obtain ⟨i, tab', hf, hdocid⟩ := h.assigns_iff.mp hassigns
    obtain ⟨file', hmem', htable'⟩ := mem_parsedFiles.mp (List.mem_of_getElem? hf)
    have htable := buildWordHT_yields_iff.mp hbuild
    rw [file_unique hpaths hmem hmem', htable'] at htable
    obtain rfl := Option.some.inj htable
    exact ⟨i, _, hf, hdocid, hmaps⟩

/-- A file without a table has no id, and a file with a table has one. -/
theorem Crawled.assigned (h : Crawled files dt index adds) (hpaths : (files.map Prod.fst).Nodup)
    {fpath : CString} {file : FileSource} (hmem : (fpath, file) ∈ files) :
    (Yields (buildWordHT file) none → ∀ docid, ¬ dt.Assigns docid fpath) ∧
    ∀ tab, Yields (buildWordHT file) (some tab) → ∃! docid, dt.Assigns docid fpath := by
  constructor
  · intro hbuild docid hassigns
    obtain ⟨i, tab, hf, -⟩ := h.assigns_iff.mp hassigns
    obtain ⟨file', hmem', htable'⟩ := mem_parsedFiles.mp (List.mem_of_getElem? hf)
    have htable := buildWordHT_yields_iff.mp hbuild
    rw [file_unique hpaths hmem hmem', htable'] at htable
    cases htable
  · intro tab hbuild
    have hparsed : (fpath, tab) ∈ parsedFiles files :=
      mem_parsedFiles.mpr ⟨file, hmem, buildWordHT_yields_iff.mp hbuild⟩
    obtain ⟨i, hf⟩ := List.mem_iff_getElem?.mp hparsed
    refine ⟨docIdOf i, h.assigns_iff.mpr ⟨i, tab, hf, rfl⟩, fun docid hassigns => ?_⟩
    obtain ⟨j, tab', hf', rfl⟩ := h.assigns_iff.mp hassigns
    have hname : ((parsedFiles files).map Prod.fst)[i]? = some fpath := by
      rw [List.getElem?_map, hf]
      rfl
    have hname' : ((parsedFiles files).map Prod.fst)[j]? = some fpath := by
      rw [List.getElem?_map, hf']
      rfl
    obtain ⟨hi, hi'⟩ := List.getElem?_eq_some_iff.mp hname
    obtain ⟨hj, hj'⟩ := List.getElem?_eq_some_iff.mp hname'
    rw [(nodup_parsedFiles hpaths).getElem_inj_iff.mp (hj'.trans hi'.symm)]

end Run

/-- Crawling files with different paths builds their inverted index: every `HandleFile` returns,
its drain loop ends with an empty table, a word has a list of positions in a document exactly if
the table of the file with that id has them, and only the files with a table have an id. -/
theorem crawl_builds_inverted_index (files : List (CString × FileSource))
    (hpaths : (files.map Prod.fst).Nodup) (hnames : HashesApart (files.map Prod.fst))
    (hwords : HashesApart (wordsSeen files)) (hfits : FitsTables files) :
    ∃ doctable index, Yields (crawl files) (doctable, index) ∧
      (∀ done fpath file rest, files = done ++ (fpath, file) :: rest →
        ∃ dt mi, Yields (crawl done) (dt, mi) ∧ DrainsEmpty fpath file dt mi) ∧
      (∀ word docid positions, index.Maps word docid positions ↔
        ∃ fpath file tab, (fpath, file) ∈ files ∧ doctable.Assigns docid fpath ∧
          Yields (buildWordHT file) (some tab) ∧ tab.Maps word positions) ∧
      ∀ fpath file, (fpath, file) ∈ files →
        (Yields (buildWordHT file) none → ∀ docid, ¬ doctable.Assigns docid fpath) ∧
        ∀ tab, Yields (buildWordHT file) (some tab) → ∃! docid, doctable.Assigns docid fpath := by
  have hkeys : (files.map fun f => wordKey f.1).Nodup := by
    refine List.Nodup.map_on (fun f hf f' hf' hkey => ?_) (List.Nodup.of_map _ hpaths)
    exact List.inj_on_of_nodup_map hpaths hf hf' (hnames _ (List.mem_map_of_mem hf) _
      (List.mem_map_of_mem hf') hkey)
  obtain ⟨dt, index, adds, hrun, h⟩ := crawl_yields hkeys hfits
  refine ⟨dt, index, hrun, fun done fpath file rest hsplit => ?_,
    fun word docid positions => h.maps_iff hpaths hwords, fun fpath file hmem =>
      h.assigned hpaths hmem⟩
  rw [hsplit, List.append_cons] at hfits
  rw [hsplit, List.map_append, List.nodup_append] at hkeys
  obtain ⟨dt₁, index₁, adds₁, hrun₁, h₁⟩ := crawl_yields hkeys.1 hfits.left.left
  refine ⟨dt₁, index₁, hrun₁, (h₁.step (fun f hf => ?_) hfits.left).2⟩
  exact hkeys.2.2 _ (List.mem_map_of_mem hf) _ List.mem_cons_self

/-- Two files: one with the line `"a"`, and one without a word. -/
def smallFiles : List (CString × FileSource) :=
  [(wordA, .ofContent lineA), (wordB, .ofContent [10])]

theorem wordsSeen_smallFiles : wordsSeen smallFiles = [wordA] := by
  decide +kernel

theorem fitsTables_smallFiles : FitsTables smallFiles where
  docs := Nat.lt_of_le_of_lt (List.length_filterMap_le _ _) (by decide)
  words := by
    rw [wordsSeen_smallFiles]
    decide

theorem hashesApart_smallFiles : HashesApart (smallFiles.map Prod.fst) := by
  unfold HashesApart
  decide

/-- The index of the two files. -/
theorem crawl_builds_inverted_index_small :
    ∃ doctable index, Yields (crawl smallFiles) (doctable, index) ∧
      (∀ done fpath file rest, smallFiles = done ++ (fpath, file) :: rest →
        ∃ dt mi, Yields (crawl done) (dt, mi) ∧ DrainsEmpty fpath file dt mi) ∧
      (∀ word docid positions, index.Maps word docid positions ↔
        ∃ fpath file tab, (fpath, file) ∈ smallFiles ∧ doctable.Assigns docid fpath ∧
          Yields (buildWordHT file) (some tab) ∧ tab.Maps word positions) ∧
      ∀ fpath file, (fpath, file) ∈ smallFiles →
        (Yields (buildWordHT file) none → ∀ docid, ¬ doctable.Assigns docid fpath) ∧
        ∀ tab, Yields (buildWordHT file) (some tab) → ∃! docid, doctable.Assigns docid fpath := by
  have hwords : HashesApart (wordsSeen smallFiles) := by
    rw [wordsSeen_smallFiles]
    unfold HashesApart
    decide
  exact crawl_builds_inverted_index smallFiles (by decide) hashesApart_smallFiles hwords
    fitsTables_smallFiles

end MultithreadedWebServer
