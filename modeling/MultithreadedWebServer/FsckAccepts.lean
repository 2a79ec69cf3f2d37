import Mathlib.Data.Bool.AllAny
import MultithreadedWebServer.IndexFsck

/-!
# The checker accepts what the writer writes

The three kinds of elements pass when they hold what the checker expects of them, and so do
the tables of an index file, and the file.
-/

namespace MultithreadedWebServer

/-! ## Elements -/

section Elements

variable {file : List UInt8} {pos numBuckets i : ℕ}

/-- A document in the bucket it hashes to. -/
theorem passes_docBucket {docID : UInt64} (hplace : docID.toNat % numBuckets = i)
    (hpos : 0 < numBuckets) (hlt : numBuckets < 2 ^ 32) :
    Passes (docBucket docID.toNat numBuckets) i := by
  have hmod := Nat.mod_lt docID.toNat hpos
  rw [docBucket, if_neg (Nat.pos_iff_ne_zero.mp hpos), hplace, u32_of_lt (by omega)]
  exact .pure i

theorem passes_checkFilename : ∀ (i : ℕ) (cs : List UInt8), (∀ c ∈ cs, c < 128) →
    Passes (checkFilename i cs) ()
  | _, [], _ => .pure ()
  | i, c :: cs, h => by
    have hascii : isAscii c = true := decide_eq_true (h c List.mem_cons_self)
    rw [checkFilename, hascii]
    exact (passes_checkEQ rfl).bind
      (passes_checkFilename (i + 1) cs fun c hc => h c (List.mem_cons_of_mem _ hc))

/-- A name that the checker accepts. -/
structure PlainName (s : CString) : Prop where
  /-- it is not empty -/
  pos : 0 < s.bytes.length
  /-- and not too long -/
  short : s.bytes.length < 1024
  /-- its characters are ASCII -/
  ascii : ∀ c ∈ s.bytes, c < 128

/-- A document in its bucket passes. -/
theorem passes_docElement {kv : HTKeyValue CString} (h : BytesAt file pos (docNameElem pos kv))
    (hname : PlainName kv.value) (hplace : kv.key.toNat % numBuckets = i)
    (hpos : 0 < numBuckets) (hlt : numBuckets < 2 ^ 32) :
    Passes (docTableCheckElement file numBuckets pos i) () := by
  have hshort := hname.short
  have hsize : UInt16.size = 2 ^ 16 := rfl
  have hbytes : docNameElem pos kv = leBytes 8 (htonll kv.key).toNat ++
      (leBytes 2 (htons (UInt16.ofNat kv.value.bytes.length)).toNat ++ kv.value.bytes) := by
    rw [docNameElem, ← List.append_assoc, ← List.append_nil (leBytes 2 _)]
    rfl
  rw [hbytes] at h
  have hlen := passes_fread16 h.right.left
  have hchars := h.right.right
  rw [length_leBytes, UInt16.toNat_ofNat_of_lt' (by omega)] at hlen
  rw [length_leBytes, length_leBytes] at hchars
  have hread := passes_assertRead hchars (List.length_pos_iff.mp hname.pos)
  exact (passes_fread64 h.left).bind ((passes_docBucket hplace hpos hlt).bind
    ((passes_checkEQ rfl).bind (hlen.bind ((passes_checkLT hshort).bind
      (hread.bind (passes_checkFilename 0 _ hname.ascii))))))

/-- The positions that are left, after the one before. -/
theorem passes_checkPositions : ∀ (positions : List UInt64) (pos : ℕ) (prev : Option UInt64),
    BytesAt file pos ((positions.map diskPosition).flatMap onDisk) →
    (prev.toList ++ positions).Pairwise (· < ·) →
    (∀ p ∈ prev.toList ++ positions, p.toNat < 2 ^ 32) →
    Passes (checkPositions file positions.length pos (prev.map UInt64.toNat)) ()
  | [], _, _, _, _, _ => .pure ()
  | p :: positions, pos, prev, h, hsorted, hfits => by
    rw [List.map_cons, List.flatMap_cons] at h
    have hp : p.toNat < 2 ^ 32 := hfits p (List.mem_append_right _ List.mem_cons_self)
    have hposition : BytesAt file pos (leBytes 4 (htonl p.toUInt32).toNat) :=
      BytesAt.left (e := []) h.left
    have hread := passes_fread32 hposition
    rw [UInt64.toNat_toUInt32, Nat.mod_eq_of_lt hp] at hread
    have hrest := h.right
    rw [length_onDisk, show DiskStruct.size DocidElementPosition = 4 from rfl] at hrest
    have hsorted' : (p :: positions).Pairwise (· < ·) := (List.pairwise_append.mp hsorted).2.1
    have hnext := passes_checkPositions positions (pos + 4) (some p) hrest hsorted'
      fun p hp => hfits p (List.mem_append_right _ hp)
    rw [List.length_cons, checkPositions]
    refine hread.bind ?_
    cases prev with
    | none => exact hnext
    | some q =>
      have hlt : q < p := (List.pairwise_append.mp hsorted).2.2 q List.mem_cons_self p
        List.mem_cons_self
      exact (passes_checkLT (UInt64.lt_iff_toNat_lt.mp hlt)).bind hnext

/-- A posting list that the checker accepts. -/
structure PlainPositions (positions : List UInt64) : Prop where
  /-- it is not too long -/
  short : positions.length < 1000000
  /-- it is in strictly ascending order -/
  sorted : positions.Pairwise (· < ·)
  /-- a position has the type `DocPositionOffset_t` -/
  fits : ∀ position ∈ positions, position.toNat < 2 ^ 32

/-- A posting list in its bucket passes. -/
theorem passes_postingElement {kv : HTKeyValue (LinkedList UInt64)}
    (h : BytesAt file pos (postingElem pos kv)) (hpositions : PlainPositions kv.value.toList)
    (hplace : kv.key.toNat % numBuckets = i) (hpos : 0 < numBuckets) (hlt : numBuckets < 2 ^ 32) :
    Passes (docIDTableCheckElement file numBuckets pos i) () := by
  have hshort := hpositions.short
  have hsize : UInt32.size = 2 ^ 32 := rfl
  have hbytes : postingElem pos kv = leBytes 8 (htonll kv.key).toNat ++
      (leBytes 4 (htonl (UInt32.ofNat kv.value.toList.length)).toNat ++
        (kv.value.toList.map diskPosition).flatMap onDisk) := by
    rw [postingElem, ← List.append_assoc, ← List.append_nil (leBytes 4 _)]
    rfl
  rw [hbytes] at h
  have hlen := passes_fread32 h.right.left
  have hrest := h.right.right
  rw [length_leBytes, UInt32.toNat_ofNat_of_lt' (by omega)] at hlen
  rw [length_leBytes, length_leBytes] at hrest
  exact (passes_fread64 h.left).bind ((passes_docBucket hplace hpos hlt).bind
    ((passes_checkEQ rfl).bind (hlen.bind ((passes_checkLT hshort).bind
      (passes_checkPositions _ _ none hrest hpositions.sorted hpositions.fits)))))

theorem passes_checkWord : ∀ (j : ℕ) (cs : List UInt8), (∀ c ∈ cs, 97 ≤ c ∧ c ≤ 122) →
    Passes (checkWord i j cs) ()
  | _, [], _ => .pure ()
  | j, c :: cs, h => by
    obtain ⟨hge, hle⟩ := h c List.mem_cons_self
    have hascii : isAscii c = true := decide_eq_true (UInt8.lt_of_le_of_lt hle (by decide))
    have hlower : isLowerC c = true := by
      rw [isLowerC, decide_eq_true hge, decide_eq_true hle]
      rfl
    have halpha : isAlphaC c = true := by
      rw [isAlphaC, decide_eq_true hge, decide_eq_true hle]
      exact Bool.or_true _
    rw [checkWord, hascii, halpha, hlower]
    exact (passes_checkEQ rfl).bind ((passes_checkEQ rfl).bind
      (passes_checkWord (j + 1) cs fun c hc => h c (List.mem_cons_of_mem _ hc)))

/-- A word that the checker accepts. -/
structure PlainWord (s : CString) : Prop where
  /-- it is not empty -/
  pos : 0 < s.bytes.length
  /-- and not too long -/
  short : s.bytes.length < 8192
  /-- its characters are lower-case letters -/
  lower : ∀ c ∈ s.bytes, 97 ≤ c ∧ c ≤ 122

/-- A word passes, with the table of its documents. -/
theorem passes_wordElement {c : HashTableChecker} {wds : WordDocSet}
    (h : BytesAt c.file pos (wordDocSetImage pos wds))
    (hle : pos + (wordDocSetImage pos wds).length ≤ c.offset + c.len)
    (hend : c.offset + c.len + 1 < 2 ^ 32) (hword : PlainWord wds.word) (hdocs : wds.docIDs.WF)
    (hpositions : ∀ kv ∈ wds.docIDs.entries, PlainPositions kv.value.toList) :
    Passes (indexTableCheckElement c numBuckets pos i) () := by
  have hshort := hword.short
  have hsize : UInt16.size = 2 ^ 16 := rfl
  have hsize' : UInt32.size = 2 ^ 32 := rfl
  have htableLen : (tableImage postingElem (pos + 6 + wds.word.bytes.length)
    wds.docIDs.chains).length = _ := length_tableImage _ _
  rw [wordDocSetImage, List.length_append, List.length_append, length_onDisk,
    show DiskStruct.size WorddocsetHeader = 6 from rfl] at hle
  obtain ⟨table, htable⟩ : ∃ table, table = tableImage postingElem
    (pos + 6 + wds.word.bytes.length) wds.docIDs.chains := ⟨_, rfl⟩
  have hbytes : wordDocSetImage pos wds =
      leBytes 2 (htons (UInt16.ofNat wds.word.bytes.length)).toNat ++
        (leBytes 4 (htonl (UInt32.ofNat table.length)).toNat ++ (wds.word.bytes ++ table)) := by
    rw [wordDocSetImage, htable, ← List.append_assoc, ← List.append_nil (leBytes 4 _)]
    rfl
  rw [← htable] at hle htableLen
  rw [hbytes] at h
  have hwordLen := passes_fread16 h.left
  have hdocsLen := passes_fread32 h.right.left
  have hchars := h.right.right.left
  have hat := h.right.right.right
  rw [UInt16.toNat_ofNat_of_lt' (by omega)] at hwordLen
  rw [length_leBytes, UInt32.toNat_ofNat_of_lt' (by omega)] at hdocsLen
  rw [length_leBytes, length_leBytes] at hchars hat
  have hread := passes_assertRead hchars (List.length_pos_iff.mp hword.pos)
  have hoffset : u32 (pos + 2 + 4 + wds.word.bytes.length) = pos + 6 + wds.word.bytes.length :=
    u32_of_lt (by omega)
  have hcheck : Passes (check (docIDTableCheckElement c.file)
      ⟨c.file, pos + 6 + wds.word.bytes.length, table.length⟩ (pos + 6 + wds.word.bytes.length)
      table.length) () := by
    rw [htable] at hat
    refine passes_checkTable hdocs
      (c := ⟨c.file, pos + 6 + wds.word.bytes.length, table.length⟩) hat ?_ ?_
      fun kv hkv p hp _ => ?_
    · exact congrArg List.length htable
    · dsimp only
      omega
    · exact passes_postingElement hp (hpositions kv hkv) rfl hdocs.pos hdocs.small
  refine hwordLen.bind ((passes_checkLT hshort).bind (hdocsLen.bind (Passes.bind (a := ()) ?_
    (hread.bind ((passes_checkWord 0 _ hword.lower).bind ?_)))))
  · rw [hoffset, u32_of_lt (by omega)]
    exact passes_checkLT (by omega)
  · dsimp only
    rw [hoffset]
    exact hcheck

end Elements

/-! ## The checksum -/

/-- The checksum is the one that the readers compute. -/
theorem passes_checksumLoop {file : List UInt8} : ∀ (fuel : ℕ) {pos left : ℕ} (crc : UInt32),
    (file.drop pos).length = left → left < fuel → left < 2 ^ 32 →
    Passes (checksumLoop file fuel pos left crc) ((file.drop pos).foldl foldByteIntoCRC crc)
  | 0, _, _, _, _, hfuel, _ => absurd hfuel (Nat.not_lt_zero _)
  | fuel + 1, pos, left, crc, hlen, hfuel, hlt => by
    rw [checksumLoop]
    by_cases hleft : left = 0
    · rw [if_neg (by omega)]
      rw [hleft] at hlen
      rw [List.length_eq_zero_iff.mp hlen]
      exact .pure crc
    · have hbuf : ((file.drop pos).take 512).length = min 512 left := by
        rw [List.length_take, hlen]
      rw [if_pos (Nat.pos_of_ne_zero hleft)]
      dsimp only
      rw [if_pos (by omega), u32Sub_of_le (by omega) hlt]
      have hrest : (file.drop (pos + ((file.drop pos).take 512).length)).length =
          left - ((file.drop pos).take 512).length := by
        rw [← List.drop_drop, List.length_drop, hlen]
      have hloop := passes_checksumLoop fuel (((file.drop pos).take 512).foldl foldByteIntoCRC crc)
        hrest (by omega) (by omega)
      rwa [foldl_chunk] at hloop

/-! ## The file -/

/-- What the checker expects of a document table and an index. -/
structure PlainFormat (mi : MemIndex) (dt : DocTable) : Prop where
  /-- the document table is a table -/
  docs : (dtGetDocidTable dt).WF
  /-- of ASCII names of 1 to 1023 bytes -/
  names : ∀ kv ∈ (dtGetDocidTable dt).entries, PlainName kv.value
  /-- the index is an index, with non-empty posting lists -/
  index : MemIndex.Wired mi
  /-- of words of 1 to 8191 lower-case letters -/
  words : ∀ key set, mi.get? key = some set → PlainWord set.word
  /-- with ascending posting lists -/
  positions : ∀ key set, mi.get? key = some set →
    ∀ kv ∈ set.docIDs.entries, PlainPositions kv.value.toList
  /-- the size of the file -/
  size : (fileImage mi dt).length < 2 ^ 32 - 1

section File

variable {mi : MemIndex} {dt : DocTable}

/-- The file format can hold it. -/
theorem PlainFormat.fits (h : PlainFormat mi dt) : FitsFormat mi dt where
  docs := h.docs
  names := fun kv hkv => ⟨(h.names kv hkv).pos, by
    have hshort := (h.names kv hkv).short
    omega⟩
  index := h.index
  words := fun key set hget => ⟨(h.words key set hget).pos, by
    have hshort := (h.words key set hget).short
    omega⟩
  size := by
    have hsize := h.size
    omega

/-- The document table passes. -/
theorem PlainFormat.passes_docTable (h : PlainFormat mi dt) :
    Passes (check (docTableCheckElement (fileImage mi dt))
      ⟨fileImage mi dt, 16, (docTableImage dt).length⟩ 16 (docTableImage dt).length) () := by
  have hsize := h.size
  rw [length_fileImage] at hsize
  refine passes_checkTable h.docs (c := ⟨fileImage mi dt, 16, (docTableImage dt).length⟩)
    h.fits.docTable_at.bytes rfl ?_ fun kv hkv p hp _ => ?_
  · dsimp only
    omega
  · exact passes_docElement hp (h.names kv hkv) rfl h.docs.pos h.docs.small

/-- The index table passes. -/
theorem PlainFormat.passes_indexTable (h : PlainFormat mi dt) :
    Passes (check (indexTableCheckElement
        ⟨fileImage mi dt, 16 + (docTableImage dt).length, (indexTableImage mi dt).length⟩)
      ⟨fileImage mi dt, 16 + (docTableImage dt).length, (indexTableImage mi dt).length⟩
      (16 + (docTableImage dt).length) (indexTableImage mi dt).length) () := by
  have hsize := h.size
  rw [length_fileImage] at hsize
  have hend : 16 + (docTableImage dt).length + (indexTableImage mi dt).length + 1 < 2 ^ 32 := by
    omega
  refine passes_checkTable h.index.records.table
    (c := ⟨fileImage mi dt, 16 + (docTableImage dt).length, (indexTableImage mi dt).length⟩)
    h.fits.indexTable_at.bytes rfl hend fun kv hkv p hp hle => ?_
  obtain ⟨set, hread⟩ := Option.isSome_iff_exists.mp (h.index.records.live kv hkv)
  have hget : mi.get? kv.key = some set :=
    (mi.get?_of_mem h.index.records.table hkv).trans hread
  rw [wordElem, hread] at hp hle
  exact passes_wordElement hp hle hend (h.words _ _ hget) (h.index.docIDs _ _ hget)
    (h.positions _ _ hget)

/-- The four numbers of the header are read. -/
theorem passes_header {file : List UInt8} {header : IndexFileHeader}
    (h : BytesAt file 0 (onDisk header)) :
    Passes (fread32 file 0) header.magicNumber.toNat ∧
      Passes (fread32 file 4) header.checksum.toNat ∧
      Passes (fread32 file 8) header.doctableSize.toNat ∧
      Passes (fread32 file 12) header.indexSize.toNat := by
  have hbytes : onDisk header = leBytes 4 (htonl header.magicNumber).toNat ++
      (leBytes 4 (htonl header.checksum).toNat ++ (leBytes 4 (htonl header.doctableSize).toNat ++
        (leBytes 4 (htonl header.indexSize).toNat ++ []))) := rfl
  rw [hbytes] at h
  have hchecksum := h.right
  have hdoctable := hchecksum.right
  have hindex := hdoctable.right
  rw [length_leBytes] at hchecksum hdoctable hindex
  rw [length_leBytes] at hdoctable hindex
  rw [length_leBytes] at hindex
  exact ⟨passes_fread32 h.left, passes_fread32 hchecksum.left, passes_fread32 hdoctable.left,
    passes_fread32 hindex.left⟩

/-- The file passes. -/
theorem PlainFormat.passes_file (h : PlainFormat mi dt) (filename : String) :
    Passes (fileIndexChecker filename (fileImage mi dt)) () := by
  have hsize := h.size
  rw [length_fileImage] at hsize
  obtain ⟨hdoc, hindex⟩ := h.fits.header_sizes
  have hheader : BytesAt (fileImage mi dt) 0 (onDisk (fileHeader mi dt)) := by
    rw [fileImage]
    exact List.prefix_append _ _
  obtain ⟨hmagic, hchecksum, hdoctableSize, hindexSize⟩ := passes_header hheader
  rw [hdoc] at hdoctableSize
  rw [hindex] at hindexSize
  have hrest : u32Sub (u32 (fileImage mi dt).length) 16 =
      (docTableImage dt).length + (indexTableImage mi dt).length := by
    rw [length_fileImage, u32_of_lt (by omega), u32Sub_of_le (by omega) (by omega)]
    omega
  have htables : (fileImage mi dt).drop 16 = tablesImage mi dt := by
    have hlen : (onDisk (fileHeader mi dt)).length = 16 := length_onDisk _
    rw [fileImage, List.drop_left' hlen]
  have hleft : ((fileImage mi dt).drop 16).length =
      (docTableImage dt).length + (indexTableImage mi dt).length := by
    rw [htables, tablesImage, List.length_append]
  have hcrc := passes_checksumLoop ((fileImage mi dt).length + 1) crcInit hleft
    (by
      rw [length_fileImage]
      omega) (by omega)
  rw [htables] at hcrc
  have htail : Passes (do
      print (.progress "    recalculating the checksum...")
      let crc ← checksumLoop (fileImage mi dt) ((fileImage mi dt).length + 1) 16
        ((docTableImage dt).length + (indexTableImage mi dt).length) crcInit
      checkEQ32 (getFinalCRC crc).toNat (fileHeader mi dt).checksum.toNat "checksum"
      print (.progress "  checking the doctable...")
      check (docTableCheckElement (fileImage mi dt))
        ⟨fileImage mi dt, 16, (docTableImage dt).length⟩ 16 (docTableImage dt).length
      print (.progress "  checking the index table...")
      check (indexTableCheckElement
          ⟨fileImage mi dt, u32 (16 + (docTableImage dt).length), (indexTableImage mi dt).length⟩)
        ⟨fileImage mi dt, u32 (16 + (docTableImage dt).length), (indexTableImage mi dt).length⟩
        (u32 (16 + (docTableImage dt).length)) (indexTableImage mi dt).length
      print (.progress "  done")) () := by
    rw [u32_of_lt (show 16 + (docTableImage dt).length < 2 ^ 32 by omega)]
    exact (passes_print rfl).bind (hcrc.bind ((passes_checkEQ rfl).bind ((passes_print rfl).bind
      (h.passes_docTable.bind ((passes_print rfl).bind
        (h.passes_indexTable.bind (passes_print rfl)))))))
  rw [fileIndexChecker, hrest]
  refine (passes_print rfl).bind ((passes_print rfl).bind ((passes_print rfl).bind
    (hmagic.bind ((passes_checkEQ rfl).bind (hchecksum.bind (hdoctableSize.bind
      (hindexSize.bind ((passes_print rfl).bind (Passes.bind (a := ()) ?_ ?_)))))))))
  · rw [u32_of_lt (by omega)]
    exact passes_checkEQ rfl
  · dsimp only
    split
    · exact (passes_print rfl).bind htail
    · exact htail

end File

/-! ## The checker and the writer -/

/-- The checker accepts what the writer writes: for a document table and an index that meet
its expectations, no `assert` fails and no mismatch is printed. -/
theorem checker_accepts_written_index (mi : MemIndex) (dt : DocTable) (h : PlainFormat mi dt)
    (f : IndexFile) (hio : f.verdicts = []) (hmallocs : f.mallocs = []) (filename : String) :
    ∃ size f' output, (writeIndex mi dt).Returns f size f' ∧
      fileIndexChecker filename f'.content [] = .ok ((), output) ∧
      ∀ line ∈ output, line.isMismatch = false := by
  obtain ⟨pos, hrun⟩ := writeIndex_returns h.fits hio hmallocs
  obtain ⟨output, hchecker, hlines⟩ := h.passes_file filename []
  exact ⟨_, _, _, hrun, hchecker, hlines⟩

theorem plainFormat_letters : PlainFormat lettersIndex lettersDocTable where
  docs := fitsFormat_letters.docs
  names := fun kv hkv => by
    have hcases := letterNames_spec.2.subset hkv
    simp only [letterNames, List.mem_cons, List.not_mem_nil, or_false] at hcases
    rcases hcases with rfl | rfl <;>
      exact ⟨by decide, by decide, List.all_iff_forall_prop.mp (by decide)⟩
  index := fitsFormat_letters.index
  words := fun key set h => by
    obtain ⟨word, hword, -, rfl⟩ := get?_lettersIndex h
    exact letters_words ⟨by decide, by decide, List.all_iff_forall_prop.mp (by decide)⟩
      ⟨by decide, by decide, List.all_iff_forall_prop.mp (by decide)⟩
      ⟨by decide, by decide, List.all_iff_forall_prop.mp (by decide)⟩ word hword
  positions := fun key set h => by
    obtain ⟨word, hword, -, rfl⟩ := get?_lettersIndex h
    refine (letters_docIDs (P := fun _ kv => PlainPositions kv.value.toList) ?_ hword).2.2
    refine letters_lists (P := fun list => PlainPositions list.toList) ?_ fun xy hxy => ?_
    · rw [(repr_singleton _).toList_eq]
      exact ⟨by decide, by decide, List.all_iff_forall_prop.mp (by decide)⟩
    · rw [(repr_two _ _).toList_eq]
      simp only [List.mem_cons, List.not_mem_nil, or_false] at hxy
      rcases hxy with rfl | rfl | rfl <;>
        exact ⟨by decide, by decide, List.all_iff_forall_prop.mp (by decide)⟩
  size := by
    rw [length_fileImage]
    decide +kernel

/-- The checker accepts the file of three words in two documents. -/
theorem checker_accepts_written_index_letters : ∃ size f' output,
    (writeIndex lettersIndex lettersDocTable).Returns ⟨false, [], 0, [], []⟩ size f' ∧
      fileIndexChecker "index.idx" f'.content [] = .ok ((), output) ∧
      ∀ line ∈ output, line.isMismatch = false :=
  checker_accepts_written_index lettersIndex lettersDocTable plainFormat_letters
    ⟨false, [], 0, [], []⟩ rfl rfl "index.idx"

end MultithreadedWebServer
