import MultithreadedWebServer.IndexRoundTrip

/-!
# Names and words behind a length field of 16 bits

The records of the file have 16 bits for the length of a name or a word, and the writer converts
`strlen` to that type before it does anything else. So it writes what `cut` leaves of a string:
its first bytes, as many as the length is modulo `2 ^ 16`. The file that comes of it is an index
file with the strings cut, and the readers do not find the others in it.
-/

namespace MultithreadedWebServer

/-! ## What is left of a string -/

/-- The bytes of a string that are written. -/
def cut (s : CString) : CString where
  bytes := s.bytes.take (s.bytes.length % 2 ^ 16)
  noNul := fun h => s.noNul (List.mem_of_mem_take h)

/-- A document with what is written of its name. -/
def cutName (kv : HTKeyValue CString) : HTKeyValue CString := ⟨kv.key, cut kv.value⟩

/-- The records of an index with what is written of their words. -/
def cutWords (records : Arena WordDocSet) : Arena WordDocSet :=
  ⟨records.cells.map (Option.map fun wds => { wds with word := cut wds.word })⟩

section Cut

variable {s : CString}

theorem length_cut (s : CString) : (cut s).bytes.length = s.bytes.length % 2 ^ 16 := by
  rw [cut, List.length_take, Nat.min_eq_left (Nat.mod_le _ _)]

/-- A string that fits is left as it is. -/
theorem cut_of_lt (h : s.bytes.length < 2 ^ 16) : cut s = s := by
  apply CString.ext
  have htake : (cut s).bytes = s.bytes.take (s.bytes.length % 2 ^ 16) := rfl
  rw [htake, Nat.mod_eq_of_lt h, List.take_length]

theorem length_cut_lt (s : CString) : (cut s).bytes.length < 2 ^ 16 := by
  rw [length_cut]
  exact Nat.mod_lt _ (by decide)

/-- Something is left unless the length is a multiple of `2 ^ 16`. -/
theorem fitsLength_cut (h : ¬ 2 ^ 16 ∣ s.bytes.length) : FitsLength (cut s) := by
  refine ⟨?_, length_cut_lt s⟩
  rw [length_cut]
  exact Nat.pos_of_ne_zero fun hzero => h (Nat.dvd_of_mod_eq_zero hzero)

/-- The length field. -/
theorem ofNat_length_cut (s : CString) :
    UInt16.ofNat (cut s).bytes.length = UInt16.ofNat s.bytes.length := by
  rw [← UInt16.toNat_inj, UInt16.toNat_ofNat', UInt16.toNat_ofNat', length_cut, Nat.mod_mod]

/-- And the bytes behind it. -/
theorem take_length_cut (s : CString) :
    (cut s).bytes.take (UInt16.ofNat s.bytes.length).toNat =
      s.bytes.take (UInt16.ofNat s.bytes.length).toNat := by
  rw [UInt16.toNat_ofNat', cut, List.take_take, Nat.min_self]

theorem read_cutWords (records : Arena WordDocSet) (a : Addr) :
    (cutWords records).read a =
      (records.read a).map fun wds => { wds with word := cut wds.word } := by
  rw [Arena.read, cutWords, List.getElem?_map, Arena.read]
  rcases records.cells[a]? with _ | cell
  · rfl
  · rfl

end Cut

/-! ## The writer does not tell the difference -/

/-- `WriteDocidDocnameFn` looks at what is left of the name. -/
theorem writeDocidDocnameFn_cut (offset : ℕ) (kv : HTKeyValue CString) :
    writeDocidDocnameFn offset (cutName kv) = writeDocidDocnameFn offset kv := by
  unfold writeDocidDocnameFn cutName
  dsimp only
  rw [ofNat_length_cut, take_length_cut]

/-- And `WriteWordDocSetFn` at what is left of the word. -/
theorem writeWordDocSetFn_cut (records : Arena WordDocSet) (offset : ℕ) (kv : HTKeyValue Addr) :
    writeWordDocSetFn (cutWords records) offset kv = writeWordDocSetFn records offset kv := by
  have hcut := read_cutWords records kv.value
  unfold writeWordDocSetFn
  rcases hread : records.read kv.value with _ | wds
  · rw [hread] at hcut
    rw [deref_none hread, deref_none hcut]
  · rw [hread] at hcut
    rw [deref_some hread, deref_some hcut, Run.pure_bind, Run.pure_bind]
    dsimp only
    rw [ofNat_length_cut, take_length_cut]

/-! ## The file that is written -/

/-- A document and what is written of its name. -/
def cutNameElem (pos : ℕ) (kv : HTKeyValue CString) : List UInt8 := docNameElem pos (cutName kv)

/-- The document table with the names cut. -/
def cutDocTable (dt : DocTable) : List UInt8 :=
  tableImage cutNameElem 16 (dtGetDocidTable dt).chains

/-- The index table with the words cut. -/
def cutIndexTable (mi : MemIndex) (dt : DocTable) : List UInt8 :=
  tableImage (wordElem (cutWords mi.records)) (16 + (cutDocTable dt).length) mi.table.chains

/-- The file with the names and the words cut. -/
def cutFile (mi : MemIndex) (dt : DocTable) : List UInt8 :=
  fileOf (cutDocTable dt) (cutIndexTable mi dt)

/-- A name or a word that is to be stored. -/
def Stored (mi : MemIndex) (dt : DocTable) (s : CString) : Prop :=
  (∃ kv ∈ (dtGetDocidTable dt).entries, kv.value = s) ∨
    ∃ key set, mi.get? key = some set ∧ set.word = s

/-- A document table and an index that make a file below `2 ^ 32` bytes, however long the names
and the words are. -/
structure Storable (mi : MemIndex) (dt : DocTable) : Prop where
  /-- the document table is a table -/
  docs : (dtGetDocidTable dt).WF
  /-- the index is an index, with non-empty posting lists -/
  index : mi.Wired
  /-- the size of the file -/
  size : (cutFile mi dt).length < 2 ^ 32

section Writer

variable {mi : MemIndex} {dt : DocTable}

/-- The element of a name. -/
theorem writeDocidDocnameFn_writes_cut {kvs : List (HTKeyValue CString)}
    (h : ∀ kv ∈ kvs, ¬ 2 ^ 16 ∣ kv.value.bytes.length) :
    WritesElements writeDocidDocnameFn cutNameElem kvs := by
  intro kv hkv p hfit
  have hname : ∀ kv' ∈ [cutName kv], FitsLength kv'.value := by
    intro kv' hkv'
    rw [List.mem_singleton.mp hkv']
    exact fitsLength_cut (h kv hkv)
  have hwrites := writeDocidDocnameFn_writes hname (cutName kv) List.mem_cons_self p hfit
  rw [writeDocidDocnameFn_cut] at hwrites
  exact hwrites

/-- The element of a word. -/
theorem writeWordDocSetFn_writes_cut (h : mi.Wired) {kvs : List (HTKeyValue Addr)}
    (hmem : ∀ kv ∈ kvs, kv ∈ mi.table.entries)
    (hcut : ∀ kv ∈ kvs, ∀ wds, mi.records.read kv.value = some wds →
      ¬ 2 ^ 16 ∣ wds.word.bytes.length) :
    WritesElements (writeWordDocSetFn mi.records) (wordElem (cutWords mi.records)) kvs := by
  have hfn : writeWordDocSetFn mi.records = writeWordDocSetFn (cutWords mi.records) := by
    funext offset kv
    exact (writeWordDocSetFn_cut mi.records offset kv).symm
  rw [hfn]
  apply writeWordDocSetFn_writes
  intro kv hkv
  obtain ⟨set, hread⟩ := Option.isSome_iff_exists.mp (h.records.live kv (hmem kv hkv))
  have hget : mi.get? kv.key = some set :=
    (mi.get?_of_mem h.records.table (hmem kv hkv)).trans hread
  refine ⟨{ set with word := cut set.word }, ?_, fitsLength_cut (hcut kv hkv set hread),
    h.docIDs kv.key set hget, h.lists kv.key set hget⟩
  rw [read_cutWords, hread, Option.map_some]

theorem Storable.fits (h : Storable mi dt) :
    16 + ((cutDocTable dt).length + (cutIndexTable mi dt).length) < 2 ^ 32 := by
  rw [← length_fileOf]
  exact h.size

theorem length_cutDocTable_ne (dt : DocTable) : (cutDocTable dt).length ≠ 0 := by
  rw [cutDocTable, length_tableImage]
  omega

/-- The document table is written, unless a name is refused. -/
theorem Storable.writeDocTable_writes (h : Storable mi dt)
    (hnames : ∀ kv ∈ (dtGetDocidTable dt).entries, ¬ 2 ^ 16 ∣ kv.value.bytes.length) :
    Writes (writeDocTable dt 16) 16 (cutDocTable dt) := by
  have hfits := h.fits
  refine writeHashTable_writes h.docs (writeDocidDocnameFn_writes_cut hnames) ?_
  rw [cutDocTable] at hfits
  omega

/-- And then the index table, unless a word is. -/
theorem Storable.writeMemIndex_writes (h : Storable mi dt)
    (hwords : ∀ kv ∈ mi.table.entries, ∀ wds, mi.records.read kv.value = some wds →
      ¬ 2 ^ 16 ∣ wds.word.bytes.length) :
    Writes (writeMemIndex mi (16 + (cutDocTable dt).length)) (16 + (cutDocTable dt).length)
      (cutIndexTable mi dt) := by
  have hfits := h.fits
  refine writeHashTable_writes h.index.records.table
    (writeWordDocSetFn_writes_cut h.index (fun kv hkv => hkv) hwords) ?_
  rw [cutIndexTable] at hfits
  omega

/-- When no call fails and nothing is refused, `WriteIndex` succeeds, and what it leaves is the
file with the strings cut. -/
theorem Storable.writeIndex_returns (h : Storable mi dt)
    (hcut : ∀ s, Stored mi dt s → ¬ 2 ^ 16 ∣ s.bytes.length) {f : IndexFile}
    (hio : f.verdicts = []) (hmallocs : f.mallocs = []) :
    ∃ pos, (writeIndex mi dt).Returns f (cutFile mi dt).length (quiet (cutFile mi dt) pos) := by
  refine writeIndex_fileOf (h.writeDocTable_writes fun kv hkv => ?_)
    (h.writeMemIndex_writes fun kv hkv wds hread => ?_) (length_cutDocTable_ne dt) h.fits hio
    hmallocs
  · exact hcut _ (.inl ⟨kv, hkv, rfl⟩)
  · have hget : mi.get? kv.key = some wds :=
      (mi.get?_of_mem h.index.records.table hkv).trans hread
    exact hcut _ (.inr ⟨kv.key, wds, hget, rfl⟩)

end Writer

/-! ## What the readers find in it -/

section Reader

variable {mi : MemIndex} {dt : DocTable}

/-- The document table stands behind the header. -/
theorem Storable.docTable_at (h : Storable mi dt) :
    TableAt cutNameElem (cutFile mi dt) 16 (dtGetDocidTable dt).chains :=
  docTable_at_fileOf h.fits

/-- And the index table behind that. -/
theorem Storable.indexTable_at (h : Storable mi dt) :
    TableAt (wordElem (cutWords mi.records)) (cutFile mi dt) (16 + (cutDocTable dt).length)
      mi.table.chains :=
  indexTable_at_fileOf h.fits

/-- The file opens, and both tables are found. -/
theorem Storable.readers (h : Storable mi dt) (validate : Bool) :
    ∃ fir, newFileIndexReader (cutFile mi dt) validate = .ok fir ∧
      getDocTableReader fir =
        .ok (readerAt (cutFile mi dt) 16 (dtGetDocidTable dt).chains) ∧
      getIndexTableReader fir =
        .ok (readerAt (cutFile mi dt) (16 + (cutDocTable dt).length) mi.table.chains) :=
  readers_fileOf h.docTable_at h.indexTable_at h.fits validate

/-- `LookupDocID` finds what is left of the name. -/
theorem Storable.lookupDocID_cut (h : Storable mi dt)
    (hnames : ∀ kv ∈ (dtGetDocidTable dt).entries, ¬ 2 ^ 16 ∣ kv.value.bytes.length)
    (docid : UInt64) :
    docTableLookupDocID (readerAt (cutFile mi dt) 16 (dtGetDocidTable dt).chains) docid =
      .ok (((dtGetDocidTable dt).toFinmap.lookup docid).map fun name => (cut name).bytes) := by
  obtain ⟨chain, hchain, hsub, -, hlookup⟩ := h.docs.lookup_chain docid
  obtain ⟨recs, hpositions, helems⟩ := lookupElementPositions_spec h.docTable_at hchain
  have hcut : List.Forall₂ (ElementAt docNameElem (cutFile mi dt)) recs (chain.map cutName) :=
    List.forall₂_map_right_iff.mpr helems
  have hloop := docTableLoop_spec docid hcut fun kv hkv => by
    obtain ⟨kv', hkv', rfl⟩ := List.mem_map.mp hkv
    exact fitsLength_cut (hnames kv' (hsub kv' hkv'))
  rw [docTableLookupDocID, hpositions, ok_bind, hlookup, Option.map_map]
  refine hloop.trans ?_
  rw [List.find?_map, Option.map_map]
  rfl

/-- `LookupWord` finds a word if it is what is left of one. -/
theorem Storable.lookupWord_cut (h : Storable mi dt)
    (hwords : ∀ kv ∈ mi.table.entries, ∀ wds, mi.records.read kv.value = some wds →
      ¬ 2 ^ 16 ∣ wds.word.bytes.length) (word : CppString) :
    (∃ key set r, mi.get? key = some set ∧ (cut set.word).bytes = word ∧
      lookupWord (readerAt (cutFile mi dt) (16 + (cutDocTable dt).length) mi.table.chains) word =
        .ok (some r)) ∨
    ((∀ set, mi.get? (fnvHash64 word (u32 word.length)) = some set → (cut set.word).bytes ≠ word) ∧
      lookupWord (readerAt (cutFile mi dt) (16 + (cutDocTable dt).length) mi.table.chains) word =
        .ok none) := by
  obtain ⟨chain, hchain, hsub, hsup, -⟩ :=
    h.index.records.table.lookup_chain (fnvHash64 word (u32 word.length))
  obtain ⟨recs, hpositions, helems⟩ := lookupElementPositions_spec h.indexTable_at hchain
  have hlive : ∀ kv ∈ chain, ∃ set, mi.get? kv.key = some set ∧
      (cutWords mi.records).read kv.value = some { set with word := cut set.word } ∧
      FitsLength (cut set.word) := by
    intro kv hkv
    obtain ⟨set, hread⟩ := Option.isSome_iff_exists.mp (h.index.records.live kv (hsub kv hkv))
    refine ⟨set, (mi.get?_of_mem h.index.records.table (hsub kv hkv)).trans hread, ?_,
      fitsLength_cut (hwords kv (hsub kv hkv) set hread)⟩
    rw [read_cutWords, hread, Option.map_some]
  have hfits : ∀ kv ∈ chain, ∃ wds, (cutWords mi.records).read kv.value = some wds ∧
      FitsLength wds.word := by
    intro kv hkv
    obtain ⟨set, -, hread, hlen⟩ := hlive kv hkv
    exact ⟨_, hread, hlen⟩
  unfold lookupWord
  dsimp only
  rw [hpositions, ok_bind]
  rcases indexTableLoop_spec word helems hfits with
    ⟨kv, hkv, wds, offset, hread, heq, -, hloop⟩ | ⟨hmiss, hloop⟩
  · obtain ⟨set, hget, hread', -⟩ := hlive kv hkv
    obtain rfl := Option.some.inj (hread'.symm.trans hread)
    exact .inl ⟨kv.key, set, _, hget, heq, hloop⟩
  · refine .inr ⟨fun set hget => ?_, hloop⟩
    obtain ⟨a, ha, hread⟩ := h.index.records.exists_entry hget
    have hcut : (cutWords mi.records).read a = some { set with word := cut set.word } := by
      rw [read_cutWords, hread, Option.map_some]
    exact hmiss _ (hsup _ ha rfl) _ hcut

end Reader

end MultithreadedWebServer
