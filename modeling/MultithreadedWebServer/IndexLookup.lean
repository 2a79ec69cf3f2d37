import MultithreadedWebServer.IndexImage
import MultithreadedWebServer.IndexReader

/-!
# What the readers find in an index file

Each reader method is specified on a file in which the table stands that it reads:
`lookupElementPositions_spec` finds the elements of a bucket, and the methods of the three
readers search these. The result is the value that the table in memory has for the key.
-/

namespace MultithreadedWebServer

/-! ## Reading what stands in a file -/

section Read

variable {α : Type} [DiskStruct α] {file : List UInt8} {pos : ℕ}

theorem freadStruct_at {x : α} (h : BytesAt file pos (onDisk x)) :
    freadStruct file pos = .ok x := by
  rw [freadStruct, h.readAt (length_onDisk x) (onDisk_ne_nil x)]
  exact congrArg Except.ok (ofDisk_onDisk x)

theorem freadUnchecked_at {x : α} (h : BytesAt file pos (onDisk x)) :
    freadUnchecked file pos = .ok x := by
  rw [freadUnchecked, h.readAt (length_onDisk x) (onDisk_ne_nil x)]
  exact congrArg Except.ok (ofDisk_onDisk x)

theorem freadStructs_at : ∀ {xs : List α} {pos : ℕ}, BytesAt file pos (xs.flatMap onDisk) →
    freadStructs file xs.length pos = .ok xs
  | [], _, _ => rfl
  | x :: xs, pos, h => by
    have hrest : BytesAt file (pos + DiskStruct.size α) (xs.flatMap onDisk) := by
      have hright := BytesAt.right h
      rwa [length_onDisk] at hright
    rw [List.length_cons, freadStructs, freadStruct_at (BytesAt.left h), ok_bind,
      freadStructs_at hrest, ok_bind]
    rfl

theorem freadChars_at : ∀ {cs : List UInt8} {pos : ℕ}, BytesAt file pos cs →
    freadChars file cs.length pos = .ok cs
  | [], _, _ => rfl
  | c :: cs, pos, h => by
    rw [List.length_cons, freadChars, BytesAt.head h]
    dsimp only
    rw [freadChars_at (BytesAt.tail h), ok_bind]
    rfl

end Read

/-! ## Tables -/

section Table

variable {E : Type} {elem : ℕ → E → List UInt8} {file : List UInt8} {offset : ℕ}
  {chains : List (List E)}

/-- The reader of the table. -/
def readerAt (file : List UInt8) (offset : ℕ) (chains : List (List E)) : HashTableReader :=
  ⟨file, offset, ⟨UInt32.ofNat chains.length⟩⟩

theorem newHashTableReader_spec (h : TableAt elem file offset chains) :
    newHashTableReader file offset = .ok (readerAt file offset chains) := by
  have hbytes := h.bytes
  rw [tableImage] at hbytes
  rw [newHashTableReader, freadStruct_at hbytes.left, ok_bind]
  rfl

/-- The header holds the number of buckets. -/
theorem TableAt.numBuckets (h : TableAt elem file offset chains) :
    (UInt32.ofNat chains.length).toNat = chains.length := by
  have hfit := h.fits
  rw [length_tableImage] at hfit
  have hsize : UInt32.size = 2 ^ 32 := rfl
  exact UInt32.toNat_ofNat_of_lt' (by omega)

/-- A bucket record is where the readers look for it. -/
theorem TableAt.record_offset (h : TableAt elem file offset chains) {i : ℕ}
    (hi : i < chains.length) : u32 (offset + 4 + 8 * i) = offset + 4 + 8 * i := by
  have hfit := h.fits
  rw [length_tableImage] at hfit
  exact u32_of_lt (by omega)

theorem lookupElementPositions_spec (h : TableAt elem file offset chains) {key : UInt64}
    {chain : List E} (hchain : chains[key.toNat % chains.length]? = some chain) :
    ∃ recs, lookupElementPositions (readerAt file offset chains) key = .ok recs ∧
      List.Forall₂ (ElementAt elem file) recs chain := by
  obtain ⟨hi, -⟩ := List.getElem?_eq_some_iff.mp hchain
  obtain ⟨r, recs, hrec, hlen, hpositions, helems⟩ := h.bucket hchain
  have hn := h.numBuckets
  have hne : UInt32.ofNat chains.length ≠ 0 := by
    intro hz
    rw [hz] at hn
    have : chains.length = 0 := hn.symm
    omega
  have hread : freadStruct file (u32 (offset + 4 + 8 * (key.toNat % chains.length))) = .ok r := by
    rw [h.record_offset hi]
    exact freadStruct_at hrec
  unfold lookupElementPositions readerAt
  dsimp only
  rw [if_neg hne, hn, hread, ok_bind]
  by_cases hz : r.chainLen = 0
  · rw [if_pos hz]
    rw [hz] at hlen
    obtain rfl := List.length_eq_zero_iff.mp hlen.symm
    obtain rfl : recs = [] := by simpa using helems
    exact ⟨[], rfl, .nil⟩
  · rw [if_neg hz, hlen, ← helems.length_eq, freadStructs_at hpositions]
    exact ⟨recs, rfl, helems⟩

end Table

/-! ## Chains and finite maps -/

section Chains

variable {V : Type} {t : HashTable V}

theorem HashTable.entries_eq_flatten (t : HashTable V) : t.entries = t.chains.flatten :=
  List.flatMap_def ..

theorem HashTable.WF.length_chains (h : t.WF) : t.chains.length = t.numBuckets := by
  rw [HashTable.chains, List.length_map, h.size]

/-- What the table has for a key is found in the chain the key hashes to. -/
theorem HashTable.WF.lookup_chain (h : t.WF) (key : UInt64) :
    ∃ chain, t.chains[key.toNat % t.chains.length]? = some chain ∧
      (∀ kv ∈ chain, kv ∈ t.entries) ∧ (∀ kv ∈ t.entries, kv.key = key → kv ∈ chain) ∧
      t.toFinmap.lookup key = (chain.find? fun kv => kv.key = key).map HTKeyValue.value := by
  obtain ⟨list, hlist, -⟩ := h.bucketOf key
  have hchain : t.chains[key.toNat % t.chains.length]? = some list.toList := by
    rw [h.length_chains, HashTable.chains, List.getElem?_map, hlist]
    rfl
  have hsub : ∀ kv ∈ list.toList, kv ∈ t.entries := by
    intro kv hkv
    rw [entries_eq_flatten]
    exact List.mem_flatten_of_mem (List.mem_of_getElem? hchain) hkv
  have hsup : ∀ kv ∈ t.entries, kv.key = key → kv ∈ list.toList := by
    rintro kv hkv rfl
    exact (h.mem_entries hlist).mp hkv
  refine ⟨list.toList, hchain, hsub, hsup, ?_⟩
  rcases hfind : list.toList.find? fun kv => kv.key = key with _ | kv
  · rw [hfind]
    refine lookup_asFinmap_of_absent fun e he hkey => ?_
    simpa [hkey] using List.find?_eq_none.mp hfind e (hsup e he hkey)
  · obtain rfl : kv.key = key := by simpa using List.find?_some hfind
    rw [hfind]
    exact lookup_asFinmap_of_mem h.distinct (hsub kv (List.mem_of_find?_eq_some hfind))

end Chains

/-! ## DocTableReader -/

section Lookup

variable {file : List UInt8} {offset : ℕ}

theorem docTableLoop_spec (docid : UInt64) {recs : List ElementPositionRec}
    {chain : List (HTKeyValue CString)} (h : List.Forall₂ (ElementAt docNameElem file) recs chain)
    (hfits : ∀ kv ∈ chain, FitsLength kv.value) :
    docTableLoop file docid recs =
      .ok ((chain.find? fun kv => kv.key = docid).map fun kv => kv.value.bytes) := by
  induction h with
  | nil => rfl
  | @cons r kv recs chain hat _ ih =>
    replace hat := hat.1
    have hlen : (UInt16.ofNat kv.value.bytes.length).toNat = kv.value.bytes.length :=
      UInt16.toNat_ofNat_of_lt' (hfits kv List.mem_cons_self).2
    have hname : BytesAt file (r.elementPosition.toNat + 10) kv.value.bytes := BytesAt.right hat
    rw [docTableLoop, freadStruct_at (BytesAt.left hat), ok_bind]
    dsimp only
    by_cases hkey : kv.key = docid
    · rw [if_pos hkey, hlen, freadChars_at hname, List.find?_cons_of_pos (by simpa using hkey)]
      rfl
    · rw [if_neg hkey, List.find?_cons_of_neg (by simpa using hkey)]
      exact ih fun kv hkv => hfits kv (List.mem_cons_of_mem _ hkv)

/-- `DocTableReader::LookupDocID` finds the name that the table has for the document. -/
theorem docTableLookupDocID_spec {t : HashTable CString} (h : t.WF)
    (hat : TableAt docNameElem file offset t.chains)
    (hfits : ∀ kv ∈ t.entries, FitsLength kv.value) (docid : UInt64) :
    docTableLookupDocID (readerAt file offset t.chains) docid =
      .ok ((t.toFinmap.lookup docid).map CString.bytes) := by
  obtain ⟨chain, hchain, hsub, -, hlookup⟩ := h.lookup_chain docid
  obtain ⟨recs, hpositions, helems⟩ := lookupElementPositions_spec hat hchain
  rw [docTableLookupDocID, hpositions, ok_bind, hlookup, Option.map_map]
  exact docTableLoop_spec docid helems fun kv hkv => hfits kv (hsub kv hkv)

/-! ## DocIDTableReader -/

theorem docIDTableLoop_spec (docid : UInt64) {recs : List ElementPositionRec}
    {chain : List (HTKeyValue (LinkedList UInt64))}
    (h : List.Forall₂ (ElementAt postingElem file) recs chain)
    (hfits : ∀ kv ∈ chain, kv.value.toList.length < 2 ^ 32) :
    docIDTableLoop file docid recs =
      .ok ((chain.find? fun kv => kv.key = docid).map
        fun kv => kv.value.toList.map diskPosition) := by
  induction h with
  | nil => rfl
  | @cons r kv recs chain hat _ ih =>
    replace hat := hat.1
    have hlen : (UInt32.ofNat kv.value.toList.length).toNat = kv.value.toList.length :=
      UInt32.toNat_ofNat_of_lt' (hfits kv List.mem_cons_self)
    have hpositions : BytesAt file (r.elementPosition.toNat + 12)
      ((kv.value.toList.map diskPosition).flatMap onDisk) := BytesAt.right hat
    rw [docIDTableLoop, freadStruct_at (BytesAt.left hat), ok_bind]
    dsimp only
    by_cases hkey : kv.key = docid
    · rw [if_pos hkey, hlen, ← List.length_map (f := diskPosition), freadStructs_at hpositions,
        List.find?_cons_of_pos (by simpa using hkey)]
      rfl
    · rw [if_neg hkey, List.find?_cons_of_neg (by simpa using hkey)]
      exact ih fun kv hkv => hfits kv (List.mem_cons_of_mem _ hkv)

/-- `DocIDTableReader::LookupDocID` finds the posting list of the document. -/
theorem docIDTableLookupDocID_spec {t : HashTable (LinkedList UInt64)} (h : t.WF)
    (hat : TableAt postingElem file offset t.chains)
    (hfits : ∀ kv ∈ t.entries, kv.value.toList.length < 2 ^ 32) (docid : UInt64) :
    docIDTableLookupDocID (readerAt file offset t.chains) docid =
      .ok ((t.toFinmap.lookup docid).map fun list => list.toList.map diskPosition) := by
  obtain ⟨chain, hchain, hsub, -, hlookup⟩ := h.lookup_chain docid
  obtain ⟨recs, hpositions, helems⟩ := lookupElementPositions_spec hat hchain
  rw [docIDTableLookupDocID, hpositions, ok_bind, hlookup, Option.map_map]
  exact docIDTableLoop_spec docid helems fun kv hkv => hfits kv (hsub kv hkv)

/-- The header of a posting list. -/
def postingHeader (kv : HTKeyValue (LinkedList UInt64)) : DocidElementHeader :=
  ⟨kv.key, UInt32.ofNat kv.value.toList.length⟩

/-- The inner loop reads the headers of a bucket. -/
theorem docIDListBucket_spec {bRec : BucketRec} {recs : List ElementPositionRec}
    {chain : List (HTKeyValue (LinkedList UInt64))} {j : ℕ}
    (h : List.Forall₂ (ElementAt postingElem file) recs chain)
    (hrecs : BytesAt file (bRec.bucketPosition.toNat + j * 4) (recs.flatMap onDisk)) :
    docIDListBucket file bRec chain.length j = .ok (chain.map postingHeader) := by
  induction h generalizing j with
  | nil => rfl
  | @cons r kv recs chain hat _ ih =>
    have hnext : BytesAt file (bRec.bucketPosition.toNat + (j + 1) * 4) (recs.flatMap onDisk) := by
      have hright := BytesAt.right hrecs
      rw [length_onDisk, Nat.add_assoc] at hright
      rw [Nat.succ_mul]
      exact hright
    have helem : freadUnchecked file r.elementPosition.toNat = .ok (postingHeader kv) :=
      freadUnchecked_at (BytesAt.left hat.1)
    rw [List.length_cons, docIDListBucket, freadStruct_at (BytesAt.left hrecs), ok_bind, helem,
      ok_bind, ih hnext, ok_bind]
    rfl

/-- The outer loop reads the buckets that are left. -/
theorem docIDListLoop_spec {chains : List (List (HTKeyValue (LinkedList UInt64)))}
    (hat : TableAt postingElem file offset chains) : ∀ (left i : ℕ), i + left = chains.length →
    docIDListLoop (readerAt file offset chains) left i =
      .ok ((chains.drop i).flatten.map postingHeader)
  | 0, i, hi => by
    rw [List.drop_of_length_le (by omega)]
    rfl
  | left + 1, i, hi => by
    have hlt : i < chains.length := by omega
    obtain ⟨r, recs, hrec, hlen, hpositions, helems⟩ :=
      hat.bucket (List.getElem?_eq_getElem hlt)
    have hread : freadUnchecked file (u32 (offset + 4 + i * 8)) = .ok r := by
      rw [Nat.mul_comm, hat.record_offset hlt]
      exact freadUnchecked_at hrec
    have hbucket : docIDListBucket file r r.chainLen.toNat 0 =
        .ok (chains[i].map postingHeader) := by
      rw [hlen]
      exact docIDListBucket_spec helems (by rwa [Nat.zero_mul, Nat.add_zero])
    rw [docIDListLoop]
    dsimp only [readerAt]
    rw [hread, ok_bind, hbucket, ok_bind]
    have hrest := docIDListLoop_spec hat left (i + 1) (by omega)
    rw [readerAt] at hrest
    rw [hrest, ok_bind, List.drop_eq_getElem_cons hlt, List.flatten_cons, List.map_append]
    rfl

/-- `GetDocIDList` lists every document of the table once, with the length of its posting
list. -/
theorem getDocIDList_spec {t : HashTable (LinkedList UInt64)}
    (hat : TableAt postingElem file offset t.chains) :
    getDocIDList (readerAt file offset t.chains) = .ok (t.entries.map postingHeader) := by
  have hn := hat.numBuckets
  rw [getDocIDList, readerAt]
  dsimp only
  rw [hn, t.entries_eq_flatten]
  exact docIDListLoop_spec hat t.chains.length 0 (Nat.zero_add _)

/-! ## IndexTableReader -/

/-- The table of documents inside the element of a word. -/
theorem wordDocSet_table {pos : ℕ} {wds : WordDocSet}
    (hat : BytesAt file pos (wordDocSetImage pos wds))
    (hfit : pos + (wordDocSetImage pos wds).length < 2 ^ 32) :
    TableAt postingElem file (pos + 6 + wds.word.bytes.length) wds.docIDs.chains := by
  rw [wordDocSetImage, List.length_append, List.length_append, length_onDisk] at hfit
  have hsize : DiskStruct.size WorddocsetHeader = 6 := rfl
  have hright : BytesAt file (pos + 6) _ := BytesAt.right hat
  exact ⟨BytesAt.right hright, by omega⟩

/-- The loop of `LookupWord` stops at the word, if it is in the chain. -/
theorem indexTableLoop_spec {records : Arena WordDocSet} (word : CppString) :
    ∀ {recs : List ElementPositionRec} {chain : List (HTKeyValue Addr)},
    List.Forall₂ (ElementAt (wordElem records) file) recs chain →
    (∀ kv ∈ chain, ∃ wds, records.read kv.value = some wds ∧ FitsLength wds.word) →
    (∃ kv ∈ chain, ∃ wds offset, records.read kv.value = some wds ∧ wds.word.bytes = word ∧
      TableAt postingElem file offset wds.docIDs.chains ∧
      indexTableLoop file word recs = .ok (some (readerAt file offset wds.docIDs.chains))) ∨
    ((∀ kv ∈ chain, ∀ wds, records.read kv.value = some wds → wds.word.bytes ≠ word) ∧
      indexTableLoop file word recs = .ok none)
  | _, _, .nil, _ => .inr ⟨nofun, rfl⟩
  | r :: recs, kv :: chain, .cons ⟨hat, hfit⟩ hrest, hlive => by
    obtain ⟨wds, hread, hword⟩ := hlive kv List.mem_cons_self
    rw [wordElem, hread] at hat hfit
    have htable := wordDocSet_table hat hfit
    have hlen : (UInt16.ofNat wds.word.bytes.length).toNat = wds.word.bytes.length :=
      UInt16.toNat_ofNat_of_lt' hword.2
    have hchars : BytesAt file (r.elementPosition.toNat + 6) wds.word.bytes :=
      BytesAt.left (BytesAt.right hat)
    -- what the loop does when this is not the word
    have hskip : wds.word.bytes ≠ word →
        indexTableLoop file word (r :: recs) = indexTableLoop file word recs →
        (∃ kv' ∈ kv :: chain, ∃ wds offset, records.read kv'.value = some wds ∧
          wds.word.bytes = word ∧ TableAt postingElem file offset wds.docIDs.chains ∧
          indexTableLoop file word (r :: recs) =
            .ok (some (readerAt file offset wds.docIDs.chains))) ∨
        ((∀ kv' ∈ kv :: chain, ∀ wds, records.read kv'.value = some wds →
          wds.word.bytes ≠ word) ∧ indexTableLoop file word (r :: recs) = .ok none) := by
      intro hne hloop
      rw [hloop]
      rcases indexTableLoop_spec word hrest fun kv hkv => hlive kv (List.mem_cons_of_mem _ hkv)
        with ⟨kv', hkv', hfound⟩ | ⟨hmiss, hnone⟩
      · exact .inl ⟨kv', List.mem_cons_of_mem _ hkv', hfound⟩
      · refine .inr ⟨fun kv' hkv' wds' hread' => ?_, hnone⟩
        rcases List.mem_cons.mp hkv' with rfl | hkv'
        · obtain rfl := Option.some.inj (hread.symm.trans hread')
          exact hne
        · exact hmiss kv' hkv' wds' hread'
    have hstep : indexTableLoop file word (r :: recs) =
        if wds.word.bytes.length ≠ word.length then indexTableLoop file word recs
        else if word = wds.word.bytes then (do
          return some (← newHashTableReader file
            (u32 (r.elementPosition.toNat + 6 + wds.word.bytes.length))))
        else indexTableLoop file word recs := by
      rw [indexTableLoop, freadStruct_at (BytesAt.left hat), ok_bind]
      dsimp only
      rw [hlen, freadChars_at hchars, ok_bind]
    by_cases heq : wds.word.bytes = word
    · refine .inl ⟨kv, List.mem_cons_self, wds, _, hread, heq, htable, ?_⟩
      have hoffset := htable.fits
      rw [length_tableImage] at hoffset
      rw [hstep, heq, if_neg (not_not.mpr rfl), if_pos rfl, ← heq, u32_of_lt (by omega),
        newHashTableReader_spec htable]
      rfl
    · refine hskip heq ?_
      rw [hstep, if_neg (Ne.symm heq), ite_self]

/-- `LookupWord` finds the word, and a reader for its documents, if the index has it. -/
theorem lookupWord_spec {mi : MemIndex} (h : mi.Wired)
    (hwords : ∀ key set, mi.get? key = some set → FitsLength set.word)
    (hat : TableAt (wordElem mi.records) file offset mi.table.chains) (word : CppString) :
    (∃ key set docs, mi.get? key = some set ∧ set.word.bytes = word ∧
      TableAt postingElem file docs set.docIDs.chains ∧
      lookupWord (readerAt file offset mi.table.chains) word =
        .ok (some (readerAt file docs set.docIDs.chains))) ∨
    ((∀ key set, mi.get? key = some set → set.word.bytes ≠ word) ∧
      lookupWord (readerAt file offset mi.table.chains) word = .ok none) := by
  obtain ⟨chain, hchain, hsub, hsup, -⟩ :=
    h.records.table.lookup_chain (fnvHash64 word (u32 word.length))
  obtain ⟨recs, hpositions, helems⟩ := lookupElementPositions_spec hat hchain
  have hget : ∀ kv ∈ chain, ∀ {set}, mi.records.read kv.value = some set →
      mi.get? kv.key = some set := fun kv hkv set hread =>
    (mi.get?_of_mem h.records.table (hsub kv hkv)).trans hread
  have hlive : ∀ kv ∈ chain, ∃ set, mi.records.read kv.value = some set ∧
      FitsLength set.word := by
    intro kv hkv
    obtain ⟨set, hread⟩ := Option.isSome_iff_exists.mp (h.records.live kv (hsub kv hkv))
    exact ⟨set, hread, hwords kv.key set (hget kv hkv hread)⟩
  unfold lookupWord
  dsimp only
  rw [hpositions, ok_bind]
  rcases indexTableLoop_spec word helems hlive with
    ⟨kv, hkv, set, docs, hread, heq, htable, hloop⟩ | ⟨hmiss, hloop⟩
  · exact .inl ⟨kv.key, set, docs, hget kv hkv hread, heq, htable, hloop⟩
  · refine .inr ⟨fun key set hset heq => ?_, hloop⟩
    -- a word is filed under its hash, so it would be in this bucket
    obtain ⟨a, ha, hread⟩ := h.records.exists_entry hset
    have hkey : key = fnvHash64 word (u32 word.length) := by
      rw [h.key key set hset, wordKey, heq]
    exact hmiss ⟨key, a⟩ (hsup _ ha hkey) set hread heq

end Lookup

end MultithreadedWebServer
