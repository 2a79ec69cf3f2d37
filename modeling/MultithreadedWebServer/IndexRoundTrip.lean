import MultithreadedWebServer.IndexLookup
import MultithreadedWebServer.IndexWriterSpec
import MultithreadedWebServer.RankedSearch

/-!
# The round trip of an index file

What a reader should say is stated on the data in memory: `ReadsDocs`, `ReadsPostings`
and `FindsWords` compare the methods of the three readers with the finite maps that the
tables stand for. `ReadsBack` puts them together for a file.
-/

namespace MultithreadedWebServer

/-! ## Readers that agree with the data in memory -/

/-- `LookupDocID` answers with the names of a document table. -/
def ReadsDocs (r : HashTableReader) (dt : DocTable) : Prop :=
  ∀ docid, docTableLookupDocID r docid =
    .ok (((dtGetDocidTable dt).toFinmap.lookup docid).map CString.bytes)

/-- Headers of the posting lists of a word. -/
structure HeadersOf (m : DocMap) (headers : List DocidElementHeader) : Prop where
  /-- one header a document -/
  nodup : (headers.map DocidElementHeader.docid).Nodup
  /-- with the number of positions -/
  mem : ∀ header, header ∈ headers ↔ ∃ list, m.lookup header.docid = some list ∧
    header.numPositions.toNat = list.toList.length

/-- `GetDocIDList` has every document of a word once, with the number of positions. -/
def ListsPostings (r : HashTableReader) (postings : DocMap) : Prop :=
  ∃ headers, getDocIDList r = .ok headers ∧ HeadersOf postings headers

/-- A `DocIDTableReader` answers with the posting lists of a word. -/
structure ReadsPostings (r : HashTableReader) (postings : DocMap) : Prop where
  /-- `LookupDocID` has the positions, in order -/
  lookup : ∀ docid, ∃ answer, docIDTableLookupDocID r docid = .ok answer ∧
    answer.map (List.map fun p => p.position.toUInt64) =
      (postings.lookup docid).map LinkedList.toList
  /-- and `GetDocIDList` the documents -/
  list : ListsPostings r postings

/-- `LookupWord` finds the words of an index and no others; `reads` is what the readers
it makes have to do with the documents of the word. -/
structure FindsWords (reads : HashTableReader → DocMap → Prop) (r : HashTableReader)
    (mi : MemIndex) : Prop where
  /-- a word of the index, with its documents -/
  found : ∀ key set, mi.get? key = some set → ∃ docs,
    lookupWord r set.word.bytes = .ok (some docs) ∧ reads docs set.docIDs.toFinmap
  /-- a word that is not in the index -/
  missing : ∀ word, (∀ key set, mi.get? key = some set → set.word.bytes ≠ word) →
    lookupWord r word = .ok none

/-- A file is accepted, and its readers agree with the data in memory. -/
def ReadsBack (file : List UInt8) (validate : Bool) (mi : MemIndex) (dt : DocTable) : Prop :=
  ∃ fir docs index, newFileIndexReader file validate = .ok fir ∧
    getDocTableReader fir = .ok docs ∧ getIndexTableReader fir = .ok index ∧
    ReadsDocs docs dt ∧ FindsWords ReadsPostings index mi

/-- Positions below `2 ^ 32`: all that the format has room for. -/
def FitsPositions (mi : MemIndex) : Prop :=
  ∀ key set, mi.get? key = some set → ∀ kv ∈ set.docIDs.entries,
    ∀ position ∈ kv.value.toList, position.toNat < 2 ^ 32

/-! ## Posting lists -/

theorem position_diskPosition {position : UInt64} (h : position.toNat < 2 ^ 32) :
    (diskPosition position).position.toUInt64 = position := by
  rw [← UInt64.toNat_inj, diskPosition, UInt32.toNat_toUInt64, UInt64.toNat_toUInt32]
  exact Nat.mod_eq_of_lt h

section Postings

variable {file : List UInt8} {offset : ℕ} {t : HashTable (LinkedList UInt64)}

theorem length_postings (hlists : ∀ kv ∈ t.entries, kv.value.WF) :
    ∀ kv ∈ t.entries, kv.value.toList.length < 2 ^ 32 := by
  intro kv hkv
  rw [← (hlists kv hkv).numElements_eq, (hlists kv hkv).count]
  exact (hlists kv hkv).small

theorem listsPostings_of_table (h : t.WF) (hat : TableAt postingElem file offset t.chains)
    (hlists : ∀ kv ∈ t.entries, kv.value.WF) :
    ListsPostings (readerAt file offset t.chains) t.toFinmap := by
  refine ⟨_, getDocIDList_spec hat, ?_, fun header => ?_⟩
  · rw [List.map_map]
    exact h.distinct
  · rw [List.mem_map]
    constructor
    · rintro ⟨kv, hkv, rfl⟩
      exact ⟨kv.value, lookup_asFinmap_of_mem h.distinct hkv,
        UInt32.toNat_ofNat_of_lt' (length_postings hlists kv hkv)⟩
    · rintro ⟨list, hl, hnum⟩
      have hmem := (lookup_asFinmap_iff h.distinct).mp hl
      refine ⟨_, hmem, ?_⟩
      rw [postingHeader, ← hnum, UInt32.ofNat_toNat]

theorem readsPostings_of_table (h : t.WF) (hat : TableAt postingElem file offset t.chains)
    (hlists : ∀ kv ∈ t.entries, kv.value.WF)
    (hfits : ∀ kv ∈ t.entries, ∀ position ∈ kv.value.toList, position.toNat < 2 ^ 32) :
    ReadsPostings (readerAt file offset t.chains) t.toFinmap := by
  refine ⟨fun docid => ⟨_, docIDTableLookupDocID_spec h hat (length_postings hlists) docid, ?_⟩,
    listsPostings_of_table h hat hlists⟩
  rcases hl : t.toFinmap.lookup docid with _ | list
  · rfl
  · have hmem := (lookup_asFinmap_iff h.distinct).mp hl
    refine congrArg some ?_
    rw [List.map_map]
    exact (List.map_congr_left fun position hp =>
      position_diskPosition (hfits _ hmem position hp)).trans (List.map_id' _)

end Postings

/-! ## The header -/

/-- Folding 512 bytes of what is left of a file, and then the rest. -/
theorem foldl_chunk {α : Type} (f : α → UInt8 → α) (file : List UInt8) (pos : ℕ) (a : α) :
    (file.drop (pos + ((file.drop pos).take 512).length)).foldl f
      (((file.drop pos).take 512).foldl f a) = (file.drop pos).foldl f a := by
  have hchunk := List.prefix_iff_eq_append.mp (List.take_prefix 512 (file.drop pos))
  rw [← List.drop_drop, ← List.foldl_append, hchunk]

/-- The loop over the checksum folds what is left of the file, 512 bytes at a time. -/
theorem crcLoop_spec {file : List UInt8} : ∀ (fuel : ℕ) {pos left : ℕ} (crc : UInt32),
    (file.drop pos).length = left → left < fuel → left < 2 ^ 32 →
    crcLoop file fuel pos left crc = .ok ((file.drop pos).foldl foldByteIntoCRC crc)
  | 0, _, _, _, _, hfuel, _ => absurd hfuel (Nat.not_lt_zero _)
  | fuel + 1, pos, left, crc, hlen, hfuel, hlt => by
    rw [crcLoop]
    by_cases hleft : left = 0
    · rw [if_pos hleft]
      rw [hleft] at hlen
      rw [List.length_eq_zero_iff.mp hlen]
      rfl
    · rw [if_neg hleft]
      dsimp only
      have hbuf : ((file.drop pos).take 512).length = min 512 left := by
        rw [List.length_take, hlen]
      have hrest : (file.drop (pos + ((file.drop pos).take 512).length)).length =
          left - ((file.drop pos).take 512).length := by
        rw [← List.drop_drop, List.length_drop, hlen]
      rw [u32Sub_of_le (by omega) hlt, crcLoop_spec fuel _ hrest (by omega) (by omega),
        foldl_chunk]

section File

variable {mi : MemIndex} {dt : DocTable}

/-- The sizes that the header holds. -/
theorem FitsFormat.header_sizes (h : FitsFormat mi dt) :
    (fileHeader mi dt).doctableSize.toNat = (docTableImage dt).length ∧
      (fileHeader mi dt).indexSize.toNat = (indexTableImage mi dt).length := by
  have hsize := h.fits
  have hlimit : UInt32.size = 2 ^ 32 := rfl
  exact ⟨UInt32.toNat_ofNat_of_lt' (by omega), UInt32.toNat_ofNat_of_lt' (by omega)⟩

/-- The header that is read back. -/
theorem freadStruct_fileHeader (mi : MemIndex) (dt : DocTable) :
    freadStruct (fileImage mi dt) 0 = .ok (fileHeader mi dt) := by
  have hheader : BytesAt (fileImage mi dt) 0 (onDisk (fileHeader mi dt)) := by
    rw [fileImage]
    exact List.prefix_append _ _
  exact freadStruct_at hheader

/-- The constructor of `FileIndexReader` accepts a file with two tables. -/
theorem newFileIndexReader_fileOf {docs index : List UInt8}
    (hsize : 16 + (docs.length + index.length) < 2 ^ 32) (validate : Bool) :
    newFileIndexReader (fileOf docs index) validate =
      .ok ⟨fileOf docs index, headerOf docs index⟩ := by
  have hlimit : UInt32.size = 2 ^ 32 := rfl
  have hdoc : (headerOf docs index).doctableSize.toNat = docs.length :=
    UInt32.toNat_ofNat_of_lt' (by omega)
  have hindex : (headerOf docs index).indexSize.toNat = index.length :=
    UInt32.toNat_ofNat_of_lt' (by omega)
  have hheader : BytesAt (fileOf docs index) 0 (onDisk (headerOf docs index)) := by
    rw [fileOf]
    exact List.prefix_append _ _
  have hread : freadStruct (fileOf docs index) 0 = .ok (headerOf docs index) :=
    freadStruct_at hheader
  have htables : (fileOf docs index).drop 16 = docs ++ index := by
    have hlen : (onDisk (headerOf docs index)).length = 16 := length_onDisk _
    rw [fileOf, List.drop_left' hlen]
  have hleft : u32 ((headerOf docs index).doctableSize.toNat +
      (headerOf docs index).indexSize.toNat) = (docs ++ index).length := by
    rw [hdoc, hindex, List.length_append, u32_of_lt]
    omega
  have hlength := length_fileOf docs index
  have hcrc := crcLoop_spec ((fileOf docs index).length + 1) crcInit
    (congrArg List.length htables) (by rw [List.length_append]; omega) (by
      rw [List.length_append]
      omega)
  rw [htables] at hcrc
  have hmagic : (headerOf docs index).magicNumber = magicNumber := rfl
  rw [newFileIndexReader, hread, ok_bind, if_neg (not_not.mpr hmagic), if_neg (not_not.mpr (by
    rw [length_fileOf, hdoc, hindex, Nat.add_assoc]))]
  dsimp only
  rw [hleft, hcrc]
  have hchecksum : getFinalCRC ((docs ++ index).foldl foldByteIntoCRC crcInit) =
      (headerOf docs index).checksum := rfl
  cases validate with
  | false => rfl
  | true =>
    rw [if_pos rfl, ok_bind, if_neg (not_not.mpr hchecksum)]
    rfl

/-- And the readers of the tables stand where the tables do. -/
theorem readers_fileOf {D I : Type} {docElem : ℕ → D → List UInt8} {indexElem : ℕ → I → List UInt8}
    {docs index : List UInt8} {docChains : List (List D)} {indexChains : List (List I)}
    (hdocs : TableAt docElem (fileOf docs index) 16 docChains)
    (hindex : TableAt indexElem (fileOf docs index) (16 + docs.length) indexChains)
    (hsize : 16 + (docs.length + index.length) < 2 ^ 32) (validate : Bool) :
    ∃ fir, newFileIndexReader (fileOf docs index) validate = .ok fir ∧
      getDocTableReader fir = .ok (readerAt (fileOf docs index) 16 docChains) ∧
      getIndexTableReader fir =
        .ok (readerAt (fileOf docs index) (16 + docs.length) indexChains) := by
  have hlimit : UInt32.size = 2 ^ 32 := rfl
  have hoffset : u32 (16 + (headerOf docs index).doctableSize.toNat) = 16 + docs.length := by
    have hdoc : (headerOf docs index).doctableSize.toNat = docs.length :=
      UInt32.toNat_ofNat_of_lt' (by omega)
    rw [hdoc, u32_of_lt]
    omega
  refine ⟨_, newFileIndexReader_fileOf hsize validate, newHashTableReader_spec hdocs, ?_⟩
  rw [getIndexTableReader, hoffset]
  exact newHashTableReader_spec hindex

/-- The constructor of `FileIndexReader` accepts the file, whether it checks it or not. -/
theorem newFileIndexReader_fileImage (h : FitsFormat mi dt) (validate : Bool) :
    newFileIndexReader (fileImage mi dt) validate =
      .ok ⟨fileImage mi dt, fileHeader mi dt⟩ :=
  newFileIndexReader_fileOf h.fits validate

theorem readsDocs_fileImage (h : FitsFormat mi dt) :
    ReadsDocs (readerAt (fileImage mi dt) 16 (dtGetDocidTable dt).chains) dt :=
  docTableLookupDocID_spec h.docs h.docTable_at h.names

/-- The index table of the file finds the words, and readers that stand on the tables of
their documents. -/
theorem findsWords_fileImage (h : FitsFormat mi dt) {reads : HashTableReader → DocMap → Prop}
    (hreads : ∀ key set offset, mi.get? key = some set →
      TableAt postingElem (fileImage mi dt) offset set.docIDs.chains →
      reads (readerAt (fileImage mi dt) offset set.docIDs.chains) set.docIDs.toFinmap) :
    FindsWords reads (readerAt (fileImage mi dt) (16 + (docTableImage dt).length) mi.table.chains)
      mi where
  found := fun key set hget => by
    rcases lookupWord_spec h.index h.words h.indexTable_at set.word.bytes with
      ⟨key', set', docs, hget', hword, hat, hlookup⟩ | ⟨hmiss, -⟩
    · -- words are filed under their hashes, so this is the set
      have hsame : set'.word = set.word := CString.ext hword
      have hkey : key' = key := by
        rw [h.index.key _ _ hget', h.index.key _ _ hget, hsame]
      obtain rfl : set' = set := by
        rw [hkey, hget] at hget'
        exact (Option.some.inj hget').symm
      exact ⟨_, hlookup, hreads _ _ _ hget' hat⟩
    · exact absurd rfl (hmiss key set hget)
  missing := fun word habsent => by
    rcases lookupWord_spec h.index h.words h.indexTable_at word with
      ⟨key, set, -, hget, hword, -⟩ | ⟨-, hlookup⟩
    · exact absurd hword (habsent key set hget)
    · exact hlookup

/-- Both tables of the file are found. -/
theorem readers_fileImage (h : FitsFormat mi dt) (validate : Bool) :
    ∃ fir, newFileIndexReader (fileImage mi dt) validate = .ok fir ∧
      getDocTableReader fir =
        .ok (readerAt (fileImage mi dt) 16 (dtGetDocidTable dt).chains) ∧
      getIndexTableReader fir =
        .ok (readerAt (fileImage mi dt) (16 + (docTableImage dt).length) mi.table.chains) :=
  readers_fileOf h.docTable_at h.indexTable_at h.fits validate

/-- The image of an index reads back. -/
theorem readsBack_fileImage (h : FitsFormat mi dt) (hpositions : FitsPositions mi)
    (validate : Bool) : ReadsBack (fileImage mi dt) validate mi dt := by
  obtain ⟨fir, hfir, hdocs, hindex⟩ := readers_fileImage h validate
  exact ⟨fir, _, _, hfir, hdocs, hindex, readsDocs_fileImage h,
    findsWords_fileImage h fun key set offset hget hat =>
      readsPostings_of_table (h.index.docIDs key set hget) hat
        (fun kv hkv => (h.index.lists key set hget kv hkv).1) (hpositions key set hget)⟩

end File

/-! ## A small index -/

/-- A list with one element. -/
def LinkedList.singleton {α : Type} (x : α) : LinkedList α :=
  ⟨1, some 0, some 0, ⟨[some ⟨x, none, none⟩]⟩⟩

theorem repr_singleton {α : Type} (x : α) : Repr (LinkedList.singleton x) [(0, x)] :=
  ⟨⟨rfl, trivial⟩, List.nodup_singleton _, rfl, rfl, rfl, Nat.one_lt_two_pow (by decide)⟩

/-- A table with one bucket and one pair. -/
def HashTable.singleton {V : Type} (kv : HTKeyValue V) : HashTable V :=
  ⟨1, 1, [LinkedList.singleton kv]⟩

theorem HashTable.entries_singleton {V : Type} (kv : HTKeyValue V) :
    (HashTable.singleton kv).entries = [kv] := by
  rw [entries, singleton, List.flatMap_singleton, (repr_singleton kv).toList_eq]
  rfl

theorem HashTable.wf_singleton {V : Type} (kv : HTKeyValue V) : (HashTable.singleton kv).WF where
  chains := fun chain hchain => by
    rw [List.mem_singleton.mp hchain]
    exact (repr_singleton kv).wf
  size := rfl
  pos := Nat.one_pos
  small := Nat.one_lt_two_pow (by decide)
  place := fun i chain hchain e _ => by
    have hi : i < 1 := (List.getElem?_eq_some_iff.mp hchain).1
    rw [Nat.lt_one_iff.mp hi]
    exact Nat.mod_one _
  distinct := by
    rw [entries_singleton]
    exact List.nodup_singleton _
  count := by rw [entries_singleton]; rfl
  fits := by rw [entries_singleton]; exact Nat.one_lt_two_pow (by decide)

/-- The index with one word, at position 7 of document 5. -/
def oneWordIndex (word : CString) : MemIndex :=
  ⟨HashTable.singleton ⟨wordKey word, 0⟩,
    ⟨[some ⟨word, HashTable.singleton ⟨5, LinkedList.singleton 7⟩⟩]⟩⟩

/-- The index with the word `"a"` at position 7 of document 5. -/
def smallIndex : MemIndex :=
  ⟨HashTable.singleton ⟨wordKey wordA, 0⟩,
    ⟨[some ⟨wordA, HashTable.singleton ⟨5, LinkedList.singleton 7⟩⟩]⟩⟩

/-- The document table that calls document 5 `"b"`. -/
def smallDocTable : DocTable :=
  ⟨HashTable.singleton ⟨5, wordB⟩, HashTable.singleton ⟨wordKey wordB, 5⟩, 5⟩

theorem get?_oneWordIndex {word : CString} {key : UInt64} {set : WordDocSet}
    (h : (oneWordIndex word).get? key = some set) :
    key = wordKey word ∧ set = ⟨word, HashTable.singleton ⟨5, LinkedList.singleton 7⟩⟩ := by
  rw [RecordTable.get?, Option.bind_eq_some_iff] at h
  obtain ⟨a, ha, hread⟩ := h
  have hmem : ⟨key, a⟩ ∈ (HashTable.singleton (⟨wordKey word, 0⟩ : HTKeyValue Addr)).entries :=
    (lookup_asFinmap_iff (HashTable.wf_singleton _).distinct).mp ha
  rw [HashTable.entries_singleton, List.mem_singleton] at hmem
  obtain ⟨rfl, rfl⟩ := HTKeyValue.mk.inj hmem
  exact ⟨rfl, (Option.some.inj hread).symm⟩

theorem wf_oneWordIndex (word : CString) : (oneWordIndex word).WF where
  records := by
    refine ⟨HashTable.wf_singleton _, fun kv hkv => ?_, fun kv hkv kv' hkv' _ => ?_⟩
    · rw [oneWordIndex, HashTable.entries_singleton, List.mem_singleton] at hkv
      rw [hkv]
      rfl
    · rw [oneWordIndex, HashTable.entries_singleton, List.mem_singleton] at hkv hkv'
      rw [hkv, hkv']
  key := fun key set h => by
    obtain ⟨rfl, rfl⟩ := get?_oneWordIndex h
    rfl
  docIDs := fun key set h => by
    obtain ⟨-, rfl⟩ := get?_oneWordIndex h
    exact HashTable.wf_singleton _
  lists := fun key set h e he => by
    obtain ⟨-, rfl⟩ := get?_oneWordIndex h
    rw [HashTable.entries_singleton, List.mem_singleton] at he
    rw [he]
    refine ⟨(repr_singleton _).wf, ?_⟩
    rw [(repr_singleton _).toList_eq]
    decide
  occurs := fun key set h => by
    obtain ⟨-, rfl⟩ := get?_oneWordIndex h
    rw [HashTable.entries_singleton]
    exact List.cons_ne_nil _ _

theorem get?_smallIndex {key : UInt64} {set : WordDocSet} (h : smallIndex.get? key = some set) :
    key = wordKey wordA ∧ set = ⟨wordA, HashTable.singleton ⟨5, LinkedList.singleton 7⟩⟩ :=
  get?_oneWordIndex h

theorem wf_smallIndex : smallIndex.WF := wf_oneWordIndex wordA

theorem fitsFormat_small : FitsFormat smallIndex smallDocTable where
  docs := HashTable.wf_singleton _
  names := fun kv hkv => by
    rw [smallDocTable, dtGetDocidTable, HashTable.entries_singleton, List.mem_singleton] at hkv
    rw [hkv]
    exact ⟨by decide, by decide⟩
  index := wf_smallIndex.toWired
  words := fun key set h => by
    obtain ⟨-, rfl⟩ := get?_smallIndex h
    exact ⟨by decide, by decide⟩
  size := by
    rw [length_fileImage]
    decide +kernel

/-! ## Three words in two documents -/

/-- `"c"`. -/
def wordC : CString := ⟨[99], by decide⟩

theorem hashesApart_abc : HashesApart [wordA, wordB, wordC] := by
  intro w hw w' hw' h
  simp only [List.mem_cons, List.not_mem_nil, or_false] at hw hw'
  rcases hw with rfl | rfl | rfl <;> rcases hw' with rfl | rfl | rfl <;>
    first | rfl | exact absurd h (by decide)

/-- The words `"a"`, `"b"` and `"c"`, the documents 1 and 2, and the positions. -/
def letterWords : List (CString × List (HTKeyValue (LinkedList UInt64))) :=
  [(wordA, [⟨1, LinkedList.two 0 4⟩, ⟨2, LinkedList.singleton 2⟩]),
    (wordB, [⟨1, LinkedList.singleton 2⟩]),
    (wordC, [⟨2, LinkedList.two 0 6⟩, ⟨1, LinkedList.two 6 300⟩])]

/-- Where they are filed. -/
def letterKeys : List (HTKeyValue Addr) :=
  [⟨wordKey wordA, 0⟩, ⟨wordKey wordB, 1⟩, ⟨wordKey wordC, 2⟩]

/-- The names of the documents. -/
def letterNames : List (HTKeyValue CString) := [⟨1, wordA⟩, ⟨2, wordB⟩]

/-- Their index, in two buckets, with two buckets for each of them. -/
def lettersIndex : MemIndex :=
  ⟨HashTable.ofPairs 2 letterKeys,
    ⟨letterWords.map fun word => some ⟨word.1, HashTable.ofPairs 2 word.2⟩⟩⟩

/-- The document table. -/
def lettersDocTable : DocTable :=
  ⟨HashTable.ofPairs 2 letterNames, HashTable.ofPairs 2 [⟨wordKey wordA, 1⟩, ⟨wordKey wordB, 2⟩], 2⟩

theorem letterKeys_spec :
    lettersIndex.table.WF ∧ lettersIndex.table.entries.Perm letterKeys :=
  HashTable.ofPairs_spec 2 letterKeys (by decide) (by decide) (by decide)
    (by unfold DistinctKeys; decide)

theorem letterNames_spec : (dtGetDocidTable lettersDocTable).WF ∧
    (dtGetDocidTable lettersDocTable).entries.Perm letterNames :=
  HashTable.ofPairs_spec 2 letterNames (by decide) (by decide) (by decide)
    (by unfold DistinctKeys; decide)

/-- What is true of each of the documents of each of the words is true of all in the index. -/
theorem letters_docIDs {P : CString → HTKeyValue (LinkedList UInt64) → Prop}
    (h : ∀ word ∈ letterWords, ∀ kv ∈ word.2, P word.1 kv) {word} (hword : word ∈ letterWords) :
    (HashTable.ofPairs 2 word.2).WF ∧ (HashTable.ofPairs 2 word.2).entries.Perm word.2 ∧
      ∀ kv ∈ (HashTable.ofPairs 2 word.2).entries, P word.1 kv := by
  have hspec : (HashTable.ofPairs 2 word.2).WF ∧
      (HashTable.ofPairs 2 word.2).entries.Perm word.2 := by
    refine HashTable.ofPairs_spec 2 _ (by decide) (by decide) ?_ ?_
    · simp only [letterWords, List.mem_cons, List.not_mem_nil, or_false] at hword
      rcases hword with rfl | rfl | rfl <;> decide
    · simp only [letterWords, List.mem_cons, List.not_mem_nil, or_false] at hword
      unfold DistinctKeys
      rcases hword with rfl | rfl | rfl <;> decide
  exact ⟨hspec.1, hspec.2, fun kv hkv => h word hword kv (hspec.2.subset hkv)⟩

theorem get?_lettersIndex {key : UInt64} {set : WordDocSet}
    (h : lettersIndex.get? key = some set) : ∃ word ∈ letterWords, key = wordKey word.1 ∧
      set = ⟨word.1, HashTable.ofPairs 2 word.2⟩ := by
  obtain ⟨a, ha, hread⟩ := Option.bind_eq_some_iff.mp h
  have hmem := (lookup_asFinmap_iff letterKeys_spec.1.distinct).mp ha
  have hcases := letterKeys_spec.2.subset hmem
  simp only [letterKeys, List.mem_cons, HTKeyValue.mk.injEq, List.not_mem_nil, or_false]
    at hcases
  obtain ⟨rfl, rfl⟩ | ⟨rfl, rfl⟩ | ⟨rfl, rfl⟩ := hcases
  · exact ⟨_, List.mem_cons_self, rfl, (Option.some.inj hread).symm⟩
  · exact ⟨_, List.mem_cons_of_mem _ List.mem_cons_self, rfl, (Option.some.inj hread).symm⟩
  · exact ⟨_, List.mem_cons_of_mem _ (List.mem_cons_of_mem _ List.mem_cons_self), rfl,
      (Option.some.inj hread).symm⟩

/-- What holds of these words holds of every word of the index. -/
theorem letters_words {P : CString → Prop} (ha : P wordA) (hb : P wordB) (hc : P wordC) :
    ∀ word ∈ letterWords, P word.1 := by
  intro word hword
  simp only [letterWords, List.mem_cons, List.not_mem_nil, or_false] at hword
  rcases hword with rfl | rfl | rfl
  · exact ha
  · exact hb
  · exact hc

/-- What holds of these lists holds of every list of the index. -/
theorem letters_lists {P : LinkedList UInt64 → Prop} (h : P (LinkedList.singleton 2))
    (h' : ∀ xy ∈ [((0 : UInt64), (4 : UInt64)), (0, 6), (6, 300)], P (LinkedList.two xy.1 xy.2)) :
    ∀ word ∈ letterWords, ∀ kv ∈ word.2, P kv.value := by
  intro word hword kv hkv
  simp only [letterWords, List.mem_cons, List.not_mem_nil, or_false] at hword
  rcases hword with rfl | rfl | rfl
  · simp only [List.mem_cons, List.not_mem_nil, or_false] at hkv
    rcases hkv with rfl | rfl
    · exact h' (0, 4) (by decide)
    · exact h
  · rw [List.mem_singleton.mp hkv]
    exact h
  · simp only [List.mem_cons, List.not_mem_nil, or_false] at hkv
    rcases hkv with rfl | rfl
    · exact h' (0, 6) (by decide)
    · exact h' (6, 300) (by decide)

/-- A word with the key of one of the index is that word. -/
theorem letters_apart {key : UInt64} {set : WordDocSet} (h : lettersIndex.get? key = some set)
    {word : CString} (hword : word ∈ [wordA, wordB, wordC])
    (hkey : wordKey set.word = wordKey word) : set.word = word := by
  obtain ⟨filed, hfiled, rfl, rfl⟩ := get?_lettersIndex h
  have hmem : filed.1 ∈ [wordA, wordB, wordC] :=
    letters_words (P := (· ∈ [wordA, wordB, wordC])) (by decide) (by decide) (by decide) filed
      hfiled
  exact hashesApart_abc _ hmem _ hword hkey

theorem wf_lettersIndex : lettersIndex.WF where
  records := by
    refine ⟨letterKeys_spec.1, fun kv hkv => ?_, fun kv hkv kv' hkv' heq => ?_⟩
    · have hcases := letterKeys_spec.2.subset hkv
      simp only [letterKeys, List.mem_cons, List.not_mem_nil, or_false] at hcases
      rcases hcases with rfl | rfl | rfl <;> rfl
    · have hcases := letterKeys_spec.2.subset hkv
      have hcases' := letterKeys_spec.2.subset hkv'
      simp only [letterKeys, List.mem_cons, List.not_mem_nil, or_false] at hcases hcases'
      rcases hcases with rfl | rfl | rfl <;> rcases hcases' with rfl | rfl | rfl <;>
        first | rfl | cases heq
  key := fun key set h => by
    obtain ⟨word, -, rfl, rfl⟩ := get?_lettersIndex h
    rfl
  docIDs := fun key set h => by
    obtain ⟨word, hword, -, rfl⟩ := get?_lettersIndex h
    exact (letters_docIDs (P := fun _ _ => True) (fun _ _ _ _ => trivial) hword).1
  lists := fun key set h => by
    obtain ⟨word, hword, -, rfl⟩ := get?_lettersIndex h
    refine (letters_docIDs (P := fun _ kv => kv.value.WF ∧ kv.value.toList ≠ []) ?_ hword).2.2
    refine letters_lists (P := fun list => list.WF ∧ list.toList ≠ []) ?_ fun xy _ => ?_
    · exact ⟨(repr_singleton _).wf, by
        rw [(repr_singleton _).toList_eq]
        exact List.cons_ne_nil _ _⟩
    · exact ⟨(repr_two _ _).wf, by rw [(repr_two _ _).toList_eq]; exact List.cons_ne_nil _ _⟩
  occurs := fun key set h => by
    obtain ⟨word, hword, -, rfl⟩ := get?_lettersIndex h
    have hperm := (letters_docIDs (P := fun _ _ => True) (fun _ _ _ _ => trivial) hword).2.1
    intro hnil
    rw [hnil] at hperm
    simp only [letterWords, List.mem_cons, List.not_mem_nil, or_false] at hword
    rcases hword with rfl | rfl | rfl <;> cases hperm.nil_eq

theorem fitsFormat_letters : FitsFormat lettersIndex lettersDocTable where
  docs := letterNames_spec.1
  names := fun kv hkv => by
    have hcases := letterNames_spec.2.subset hkv
    simp only [letterNames, List.mem_cons, List.not_mem_nil, or_false] at hcases
    rcases hcases with rfl | rfl <;> exact ⟨by decide, by decide⟩
  index := wf_lettersIndex.toWired
  words := fun key set h => by
    obtain ⟨word, hword, -, rfl⟩ := get?_lettersIndex h
    exact letters_words ⟨by decide, by decide⟩ ⟨by decide, by decide⟩ ⟨by decide, by decide⟩ word
      hword
  size := by
    rw [length_fileImage]
    decide +kernel

theorem fitsPositions_letters : FitsPositions lettersIndex := fun key set h => by
  obtain ⟨word, hword, -, rfl⟩ := get?_lettersIndex h
  refine (letters_docIDs
    (P := fun _ kv => ∀ position ∈ kv.value.toList, position.toNat < 2 ^ 32) ?_ hword).2.2
  refine letters_lists (P := fun list => ∀ position ∈ list.toList, position.toNat < 2 ^ 32) ?_
    fun xy hxy => ?_
  · intro position hp
    rw [(repr_singleton _).toList_eq, List.map_singleton, List.mem_singleton] at hp
    rw [hp]
    decide
  · intro position hp
    rw [(repr_two _ _).toList_eq] at hp
    simp only [List.map_cons, List.map_nil, List.mem_cons, List.not_mem_nil, or_false] at hxy hp
    rcases hxy with rfl | rfl | rfl <;> rcases hp with rfl | rfl <;> decide

/-! ## The round trip -/

/-- An index file that was written without an input or output error, or a failed
allocation, reads back as the index and the document table that were written. -/
theorem index_file_round_trip (mi : MemIndex) (dt : DocTable) (h : FitsFormat mi dt)
    (hpositions : FitsPositions mi) (f : IndexFile) (hio : f.verdicts = [])
    (hmallocs : f.mallocs = []) (validate : Bool) :
    ∃ size f', (writeIndex mi dt).Returns f size f' ∧ f'.linked = true ∧
      size = f'.content.length ∧ ReadsBack f'.content validate mi dt := by
  obtain ⟨pos, hrun⟩ := writeIndex_returns h hio hmallocs
  exact ⟨_, _, hrun, rfl, rfl, readsBack_fileImage h hpositions validate⟩

/-- The file of the three words. -/
theorem index_file_round_trip_letters :
    ∃ size f', (writeIndex lettersIndex lettersDocTable).Returns ⟨false, [], 0, [], []⟩ size f' ∧
      f'.linked = true ∧ size = f'.content.length ∧
      ReadsBack f'.content true lettersIndex lettersDocTable :=
  index_file_round_trip lettersIndex lettersDocTable fitsFormat_letters fitsPositions_letters
    ⟨false, [], 0, [], []⟩ rfl rfl true

end MultithreadedWebServer
