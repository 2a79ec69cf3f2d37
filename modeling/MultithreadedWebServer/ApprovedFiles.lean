import MultithreadedWebServer.ApprovedTables
import MultithreadedWebServer.FsckAccepts

/-!
# What the checker establishes

One postcondition for each kind of element, for the tables of an index file and for the
file. A posting list is read as the reader reads it.
-/

namespace MultithreadedWebServer

/-! ## Elements -/

/-- A name that the checker approves. -/
structure ApprovedName (name : CppString) : Prop where
  /-- it is not empty -/
  pos : 0 < name.length
  /-- and not too long -/
  short : name.length < 1024
  /-- its characters are ASCII -/
  ascii : ∀ c ∈ name, c < 128

/-- A word that the checker approves. -/
structure ApprovedWord (word : CppString) : Prop where
  /-- it is not empty -/
  pos : 0 < word.length
  /-- and not too long -/
  short : word.length < 8192
  /-- its characters are ASCII -/
  ascii : ∀ c ∈ word, c < 128
  /-- and its letters lower-case -/
  lower : ∀ c ∈ word, isAlphaC c = true → isLowerC c = true

/-- A posting list that the checker approves. -/
structure ApprovedPositions (positions : List DocidElementPosition) : Prop where
  /-- it is not too long -/
  short : positions.length < 1000000
  /-- it is in strictly ascending order -/
  sorted : positions.Pairwise fun p q => p.position.toNat < q.position.toNat

/-- A document in its bucket, with its name. -/
def DocHolds (file : List UInt8) (numBuckets pos i : ℕ) : Prop :=
  ∃ header, recordAt DoctableElementHeader file pos = some header ∧
    i = u32 (header.docid.toNat % numBuckets) ∧
      ∃ name, readAt file (pos + 10) header.filenameLen.toNat = some name ∧ ApprovedName name

/-- A document in its bucket, with its positions. -/
def PostingHolds (file : List UInt8) (numBuckets pos i : ℕ) : Prop :=
  ∃ header, recordAt DocidElementHeader file pos = some header ∧
    i = u32 (header.docid.toNat % numBuckets) ∧
      ∃ positions, freadStructs file header.numPositions.toNat (pos + 12) = .ok positions ∧
        ApprovedPositions positions

/-- A word, with the table of its documents. -/
def WordHolds (file : List UInt8) (_numBuckets pos _i : ℕ) : Prop :=
  ∃ header, recordAt WorddocsetHeader file pos = some header ∧
    (∃ word, readAt file (pos + 6) header.wordLen.toNat = some word ∧ ApprovedWord word) ∧
      TableHolds (PostingHolds file) file (u32 (pos + 6 + header.wordLen.toNat))

section Elements

variable {file : List UInt8}

theorem ensures_docBucket (docID numBuckets : ℕ) :
    Ensures (docBucket docID numBuckets) fun bucket => bucket = u32 (docID % numBuckets) := by
  rw [docBucket]
  split
  · exact ensures_throw _
  · exact .pure rfl

theorem of_one_eq_ite {b : Bool} (h : 1 = if b then 1 else 0) : b = true := by
  cases b with
  | true => rfl
  | false => cases h

theorem ensures_checkFilename : ∀ (i : ℕ) (cs : List UInt8),
    Ensures (checkFilename i cs) fun _ => ∀ c ∈ cs, c < 128
  | _, [] => .pure fun c hc => by cases hc
  | i, c :: cs => by
    rw [checkFilename]
    refine (ensures_checkEQ _ _ _ _ _).bind fun _ => (ensures_checkFilename (i + 1) cs).mono ?_
    intro _ hcs hc
    exact List.forall_mem_cons.mpr ⟨of_decide_eq_true (of_one_eq_ite hc), hcs⟩

theorem ensures_docTableCheckElement (numBuckets pos i : ℕ) :
    Ensures (docTableCheckElement file numBuckets pos i)
      fun _ => DocHolds file numBuckets pos i := by
  rw [docTableCheckElement]
  refine (ensures_fread64 file pos).bind fun docID => (ensures_docBucket docID numBuckets).bind
    fun bucket => (ensures_checkEQ _ _ _ _ _).bind fun _ => (ensures_fread16 file _).bind
      fun fnlen => (ensures_checkLT _ _ _ _ _ _).bind fun _ =>
        (ensures_assertRead file _ _).bind fun filename =>
          (ensures_checkFilename 0 filename).mono ?_
  rintro _ hascii ⟨hpos, hread⟩ hshort ⟨fnlen, hlen, rfl⟩ hbucket rfl ⟨docID, hdoc, rfl⟩
  refine ⟨⟨docID, fnlen⟩, recordAt_doctableElementHeader hdoc hlen, hbucket, filename, hread, ?_⟩
  rw [← length_of_readAt hread] at hpos hshort
  exact ⟨hpos, hshort, hascii⟩

/-- One struct after the other. -/
theorem freadStructs_cons {α : Type} [DiskStruct α] {left pos : ℕ} {x : α} {xs : List α}
    (hx : recordAt α file pos = some x)
    (hxs : freadStructs file left (pos + DiskStruct.size α) = .ok xs) :
    freadStructs file (left + 1) pos = .ok (x :: xs) := by
  rw [freadStructs, freadStruct_ok_iff.mpr hx, ok_bind, hxs, ok_bind]
  rfl

/-- The loop over the positions reads them as the reader does, and each is larger than the
one before. -/
theorem ensures_checkPositions : ∀ (left pos : ℕ) (prevPos : Option ℕ),
    Ensures (checkPositions file left pos prevPos) fun _ =>
      ∃ positions, freadStructs file left pos = .ok positions ∧ positions.length = left ∧
        (prevPos.toList ++ positions.map fun p : DocidElementPosition => p.position.toNat).IsChain
          (· < ·)
  | 0, pos, prevPos => .pure ⟨[], rfl, rfl, by
    cases prevPos with
    | none => exact .nil
    | some prev => exact .singleton prev⟩
  | left + 1, pos, none => by
    rw [checkPositions]
    refine (ensures_fread32 file pos).bind fun curPos =>
      (ensures_checkPositions left (pos + 4) (some curPos)).mono ?_
    rintro _ ⟨positions, hrest, hlen, hchain⟩ ⟨x, hread, rfl⟩
    have hrecord : recordAt DocidElementPosition file pos = some ⟨x⟩ :=
      recordAt_of_net32 rfl (fun _ => rfl) hread
    exact ⟨⟨x⟩ :: positions, freadStructs_cons hrecord hrest, congrArg Nat.succ hlen, hchain⟩
  | left + 1, pos, some prev => by
    rw [checkPositions]
    refine (ensures_fread32 file pos).bind fun curPos => (ensures_checkLT _ _ _ _ _ _).bind
      fun _ => (ensures_checkPositions left (pos + 4) (some curPos)).mono ?_
    rintro _ ⟨positions, hrest, hlen, hchain⟩ hlt ⟨x, hread, rfl⟩
    have hrecord : recordAt DocidElementPosition file pos = some ⟨x⟩ :=
      recordAt_of_net32 rfl (fun _ => rfl) hread
    exact ⟨⟨x⟩ :: positions, freadStructs_cons hrecord hrest, congrArg Nat.succ hlen,
      List.isChain_cons_cons.mpr ⟨hlt, hchain⟩⟩

theorem ensures_docIDTableCheckElement (numBuckets pos i : ℕ) :
    Ensures (docIDTableCheckElement file numBuckets pos i) fun _ =>
      PostingHolds file numBuckets pos i := by
  rw [docIDTableCheckElement]
  refine (ensures_fread64 file pos).bind fun docID => (ensures_docBucket docID numBuckets).bind
    fun bucket => (ensures_checkEQ _ _ _ _ _).bind fun _ => (ensures_fread32 file _).bind
      fun numPos => (ensures_checkLT _ _ _ _ _ _).bind fun _ =>
        (ensures_checkPositions numPos _ none).mono ?_
  rintro _ ⟨positions, hpositions, hlen, hchain⟩ hshort ⟨numPos, hnum, rfl⟩ hbucket rfl
    ⟨docID, hdoc, rfl⟩
  refine ⟨⟨docID, numPos⟩, recordAt_docidElementHeader hdoc hnum, hbucket, positions, hpositions,
    ?_, ?_⟩
  · rwa [hlen]
  · exact List.pairwise_map.mp (List.isChain_iff_pairwise.mp hchain)

theorem ensures_checkWord (bucketNumber : ℕ) : ∀ (i : ℕ) (cs : List UInt8),
    Ensures (checkWord bucketNumber i cs) fun _ =>
      ∀ c ∈ cs, c < 128 ∧ (isAlphaC c = true → isLowerC c = true)
  | _, [] => .pure fun c hc => by cases hc
  | i, c :: cs => by
    rw [checkWord]
    refine (ensures_checkEQ _ _ _ _ _).bind fun _ => ?_
    dsimp only
    split
    · refine (ensures_checkEQ _ _ _ _ _).bind fun _ =>
        (ensures_checkWord bucketNumber (i + 1) cs).mono ?_
      intro _ hcs hlower hascii
      exact List.forall_mem_cons.mpr
        ⟨⟨of_decide_eq_true (of_one_eq_ite hascii), fun _ => of_one_eq_ite hlower⟩, hcs⟩
    · rename_i halpha
      refine (ensures_checkWord bucketNumber (i + 1) cs).mono ?_
      intro _ hcs hascii
      exact List.forall_mem_cons.mpr
        ⟨⟨of_decide_eq_true (of_one_eq_ite hascii), fun h => absurd h halpha⟩, hcs⟩

theorem ensures_indexTableCheckElement {c : HashTableChecker} (hsize : c.file.length < 2 ^ 32)
    (numBuckets pos i : ℕ) :
    Ensures (indexTableCheckElement c numBuckets pos i) fun _ =>
      WordHolds c.file numBuckets pos i := by
  rw [indexTableCheckElement]
  refine (ensures_fread16 c.file pos).bind fun wordLen => (ensures_checkLT _ _ _ _ _ _).bind
    fun _ => (ensures_fread32 c.file _).bind fun docIDTableLen =>
      (ensures_checkLT _ _ _ _ _ _).bind fun _ => (ensures_assertRead c.file _ _).bind fun word =>
        (ensures_checkWord i 0 word).bind fun _ =>
          (ensures_check (E := PostingHolds c.file)
            (c := ⟨c.file, u32 (pos + 2 + 4 + wordLen), docIDTableLen⟩) hsize
            ensures_docIDTableCheckElement _ _).mono ?_
  rintro _ htable hchars ⟨hpos, hread⟩ - ⟨docIDTableLen, hdocs, rfl⟩ hshort
    ⟨wordLen, hlen, rfl⟩
  refine ⟨⟨wordLen, docIDTableLen⟩, recordAt_worddocsetHeader hlen hdocs, ⟨word, hread, ?_⟩, htable⟩
  rw [← length_of_readAt hread] at hpos hshort
  exact ⟨hpos, hshort, fun c hc => (hchars c hc).1, fun c hc => (hchars c hc).2⟩

end Elements

/-! ## The file -/

/-- What the checker establishes of a file. -/
structure FileHolds (file : List UInt8) (header : IndexFileHeader) : Prop where
  /-- it starts with a header -/
  start : recordAt IndexFileHeader file 0 = some header
  /-- with the magic number -/
  magic : header.magicNumber = magicNumber
  /-- the tables fill the file -/
  tables : u32Sub (u32 file.length) 16 = u32 (header.doctableSize.toNat + header.indexSize.toNat)
  /-- their checksum is that of the header -/
  checksum : ∃ crc, crcLoop file (file.length + 1) 16
    (u32 (header.doctableSize.toNat + header.indexSize.toNat)) crcInit = .ok crc ∧
      getFinalCRC crc = header.checksum
  /-- the document table -/
  docTable : TableHolds (DocHolds file) file 16
  /-- the index table -/
  indexTable : TableHolds (WordHolds file) file (u32 (16 + header.doctableSize.toNat))

section File

variable {file : List UInt8}

/-- The loop over the checksum is the loop of the reader, which goes on where this one dies. -/
theorem ensures_checksumLoop : ∀ (fuel pos bytesLeft : ℕ) (crc : UInt32),
    Ensures (checksumLoop file fuel pos bytesLeft crc) fun final =>
      crcLoop file fuel pos bytesLeft crc = .ok final
  | 0, _, _, _ => ensures_throw _
  | fuel + 1, pos, bytesLeft, crc => by
    rw [checksumLoop, crcLoop]
    split
    · rename_i hleft
      dsimp only
      split
      · rw [if_neg (Nat.pos_iff_ne_zero.mp hleft)]
        exact ensures_checksumLoop fuel _ _ _
      · exact ensures_throw _
    · rename_i hleft
      rw [if_pos (Nat.eq_zero_of_not_pos hleft)]
      exact .pure rfl

theorem ensures_fileIndexChecker (filename : String) (hsize : file.length < 2 ^ 32) :
    Ensures (fileIndexChecker filename file) fun _ => ∃ header, FileHolds file header := by
  rw [fileIndexChecker]
  refine (ensures_print _).bind fun _ => (ensures_print _).bind fun _ => (ensures_print _).bind
    fun _ => (ensures_fread32 file 0).bind fun magic => (ensures_checkEQ _ _ _ _ _).bind fun _ =>
      (ensures_fread32 file 4).bind fun checksum =>
        (ensures_fread32 file 8).bind fun doctableSize =>
          (ensures_fread32 file 12).bind fun indexSize => (ensures_print _).bind fun _ =>
            (ensures_checkEQ _ _ _ _ _).bind fun _ => ?_
  have htail : Ensures (do
      print (.progress "    recalculating the checksum...")
      let crc ← checksumLoop file (file.length + 1) 16 (u32Sub (u32 file.length) 16) crcInit
      checkEQ32 (getFinalCRC crc).toNat checksum "checksum"
      print (.progress "  checking the doctable...")
      check (docTableCheckElement file) ⟨file, 16, doctableSize⟩ 16 doctableSize
      print (.progress "  checking the index table...")
      check (indexTableCheckElement ⟨file, u32 (16 + doctableSize), indexSize⟩)
        ⟨file, u32 (16 + doctableSize), indexSize⟩ (u32 (16 + doctableSize)) indexSize
      print (.progress "  done")) fun _ =>
        u32Sub (u32 file.length) 16 = u32 (doctableSize + indexSize) → True →
        (∃ x, net32 file 12 = some x ∧ indexSize = x.toNat) →
        (∃ x, net32 file 8 = some x ∧ doctableSize = x.toNat) →
        (∃ x, net32 file 4 = some x ∧ checksum = x.toNat) → magicNumber.toNat = magic →
        (∃ x, net32 file 0 = some x ∧ magic = x.toNat) → True → True → True →
        ∃ header, FileHolds file header := by
    refine (ensures_print _).bind fun _ => (ensures_checksumLoop _ _ _ _).bind fun crc =>
      (ensures_checkEQ _ _ _ _ _).bind fun _ => (ensures_print _).bind fun _ =>
        (ensures_check (E := DocHolds file) (c := ⟨file, 16, doctableSize⟩) hsize
          ensures_docTableCheckElement _ _).bind fun _ => (ensures_print _).bind fun _ =>
            (ensures_check (E := WordHolds file)
              (c := ⟨file, u32 (16 + doctableSize), indexSize⟩) hsize
              (ensures_indexTableCheckElement hsize) _ _).bind fun _ =>
                (ensures_print _).mono ?_
    rintro _ - hindex - hdocs - hchecksum hcrc - htables - ⟨i, hi, rfl⟩ ⟨d, hd, rfl⟩
      ⟨c, hc, rfl⟩ hmagic ⟨m, hm, rfl⟩ - - -
    rw [htables] at hcrc
    exact ⟨⟨m, c, d, i⟩, recordAt_indexFileHeader hm hc hd hi, (UInt32.toNat_inj.mp hmagic).symm,
      htables, ⟨crc, hcrc, UInt32.toNat_inj.mp hchecksum⟩, hdocs, hindex⟩
  dsimp only
  split
  · exact (ensures_print _).bind fun _ => htail.mono fun _ h _ => h
  · exact htail

end File

end MultithreadedWebServer
