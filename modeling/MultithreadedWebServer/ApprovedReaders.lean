import MultithreadedWebServer.ApprovedFiles

/-!
# The readers on a file that the checker approves

What the checker establishes of the three kinds of elements is what the readers rely on. So
a call of a reader returns on such a file, with one exception that the checker leaves open:
it divides by the number of buckets only where a bucket has elements, and a lookup divides
by it always.
-/

namespace MultithreadedWebServer

/-! ## Reading what is there -/

section Read

variable {file : List UInt8}

/-- Structs that are in the file one after the other are read. -/
theorem freadStructs_of_records {α : Type} [DiskStruct α] : ∀ (left pos : ℕ),
    (∀ k < left, ∃ x, recordAt α file (pos + k * DiskStruct.size α) = some x) →
    ∃ xs, freadStructs file left pos = .ok xs ∧ xs.length = left ∧
      ∀ k < left, xs[k]? = recordAt α file (pos + k * DiskStruct.size α)
  | 0, _, _ => ⟨[], rfl, rfl, fun k hk => absurd hk (Nat.not_lt_zero k)⟩
  | left + 1, pos, h => by
    have hnext (k : ℕ) : pos + (k + 1) * DiskStruct.size α =
        pos + DiskStruct.size α + k * DiskStruct.size α := by
      rw [Nat.succ_mul]
      omega
    obtain ⟨x, hx⟩ := h 0 (Nat.succ_pos left)
    rw [Nat.zero_mul, Nat.add_zero] at hx
    obtain ⟨xs, hrun, hlen, hrecords⟩ := freadStructs_of_records left
      (pos + DiskStruct.size α) fun k hk => by
        rw [← hnext]
        exact h (k + 1) (Nat.succ_lt_succ hk)
    refine ⟨x :: xs, freadStructs_cons hx hrun, congrArg Nat.succ hlen, fun k hk => ?_⟩
    cases k with
    | zero =>
      rw [Nat.zero_mul, Nat.add_zero, hx]
      rfl
    | succ k =>
      rw [List.getElem?_cons_succ, hnext]
      exact hrecords k (Nat.lt_of_succ_lt_succ hk)

theorem freadChars_of_readAt {pos n : ℕ} {cs : List UInt8} (h : readAt file pos n = some cs) :
    freadChars file n pos = .ok cs := by
  have hlen := length_of_readAt h
  obtain ⟨-, hcs⟩ := readAt_eq_some_iff.mp h
  have hbytes : BytesAt file pos cs := by
    rw [hcs]
    exact List.take_prefix n (file.drop pos)
  rw [← hlen]
  exact freadChars_at hbytes

end Read

/-! ## Lookups -/

section Lookup

variable {file : List UInt8} {E : ℕ → ℕ → ℕ → Prop} {r : HashTableReader}

/-- A lookup in a table with a bucket reads the positions of the elements of one bucket. -/
theorem lookupElementPositions_holds (hfile : r.file = file)
    (hheader : recordAt BucketListHeader file r.offset = some r.header)
    (h : TableHolds E file r.offset) (hbuckets : r.header.numBuckets ≠ 0) (key : UInt64) :
    ∃ elements, lookupElementPositions r key = .ok elements ∧
      (∀ it ∈ elements, E r.header.numBuckets.toNat it.elementPosition.toNat
        (key.toNat % r.header.numBuckets.toNat)) ∧
      ∀ bRec, bucketRecAt file r.offset (key.toNat % r.header.numBuckets.toNat) = some bRec →
        ∀ j < bRec.chainLen.toNat, ∀ ep, positionAt file bRec j = some ep → ep ∈ elements := by
  obtain ⟨header, hheader', htable⟩ := h
  obtain rfl := Option.some.inj (hheader.symm.trans hheader')
  have hpos : 0 < r.header.numBuckets.toNat := Nat.pos_of_ne_zero fun h =>
    hbuckets (UInt32.toNat_inj.mp h)
  obtain ⟨bRec, hrec, hchain⟩ := htable _ (Nat.mod_lt key.toNat hpos)
  have hread : freadStruct r.file (u32 (r.offset + 4 + 8 * (key.toNat %
      r.header.numBuckets.toNat))) = .ok bRec := by
    rw [hfile, Nat.mul_comm 8]
    exact freadStruct_ok_iff.mpr hrec
  rw [lookupElementPositions, if_neg hbuckets]
  dsimp only
  rw [hread, ok_bind]
  split
  · rename_i hzero
    refine ⟨[], rfl, fun it hit => absurd hit List.not_mem_nil, fun bRec' hrec' j hj => ?_⟩
    obtain rfl := Option.some.inj (hrec.symm.trans hrec')
    rw [hzero] at hj
    exact absurd hj (Nat.not_lt_zero j)
  · obtain ⟨elements, hrun, hlen, hrecords⟩ := freadStructs_of_records
      (α := ElementPositionRec) bRec.chainLen.toNat bRec.bucketPosition.toNat fun j hj => by
        obtain ⟨ep, hep, -⟩ := hchain j hj
        exact ⟨ep, hep⟩
    refine ⟨elements, by rw [hfile, hrun], fun it hit => ?_, fun bRec' hrec' j hj ep hep => ?_⟩
    · obtain ⟨j, hj⟩ := List.mem_iff_getElem?.mp hit
      have hlt : j < bRec.chainLen.toNat := by
        rw [← hlen]
        exact (List.getElem?_eq_some_iff.mp hj).1
      obtain ⟨ep, hep, helement⟩ := hchain j hlt
      obtain rfl := Option.some.inj (hep.symm.trans ((hrecords j hlt).symm.trans hj))
      exact helement
    · obtain rfl := Option.some.inj (hrec.symm.trans hrec')
      exact List.mem_of_getElem? ((hrecords j hj).trans hep)

/-- The search for a name finds an approved one or none. -/
theorem docTableLoop_holds {numBuckets i : ℕ} (docid : UInt64) :
    ∀ {elements : List ElementPositionRec},
    (∀ it ∈ elements, DocHolds file numBuckets it.elementPosition.toNat i) →
    ∃ found, docTableLoop file docid elements = .ok found ∧ ∀ name ∈ found, ApprovedName name
  | [], _ => ⟨none, rfl, nofun⟩
  | it :: elements, h => by
    obtain ⟨header, hrecord, -, name, hname, happroved⟩ := h it List.mem_cons_self
    rw [docTableLoop]
    rw [freadStruct_ok_iff.mpr hrecord, ok_bind]
    split
    · rw [freadChars_of_readAt hname, ok_bind]
      refine ⟨some name, rfl, fun name' hname' => ?_⟩
      obtain rfl := Option.some.inj hname'
      exact happroved
    · exact docTableLoop_holds docid fun it' hit => h it' (List.mem_cons_of_mem it hit)

/-- The search for positions finds an approved list or none, and not none if the document
is among the elements. -/
theorem docIDTableLoop_holds {numBuckets i : ℕ} (docid : UInt64) :
    ∀ {elements : List ElementPositionRec},
    (∀ it ∈ elements, PostingHolds file numBuckets it.elementPosition.toNat i) →
    ∃ found, docIDTableLoop file docid elements = .ok found ∧
      (∀ positions ∈ found, ApprovedPositions positions) ∧
      ∀ it ∈ elements, ∀ header, recordAt DocidElementHeader file it.elementPosition.toNat =
        some header → header.docid = docid → found.isSome
  | [], _ => ⟨none, rfl, nofun, fun it hit => by cases hit⟩
  | it :: elements, h => by
    obtain ⟨header, hrecord, -, positions, hpositions, happroved⟩ := h it List.mem_cons_self
    rw [docIDTableLoop]
    rw [freadStruct_ok_iff.mpr hrecord, ok_bind]
    split
    · rw [hpositions, ok_bind]
      refine ⟨some positions, rfl, fun positions' hpositions' => ?_, fun _ _ _ _ _ => rfl⟩
      obtain rfl := Option.some.inj hpositions'
      exact happroved
    · rename_i hdocid
      obtain ⟨found, hrun, hfound, hsome⟩ := docIDTableLoop_holds docid
        fun it' hit => h it' (List.mem_cons_of_mem it hit)
      refine ⟨found, hrun, hfound, fun it' hit header' hrecord' heq => ?_⟩
      rcases List.mem_cons.mp hit with rfl | hit
      · obtain rfl := Option.some.inj (hrecord.symm.trans hrecord')
        exact absurd heq hdocid
      · exact hsome it' hit header' hrecord' heq

/-- The search for a word finds a table of its documents or none. -/
theorem indexTableLoop_holds {numBuckets i : ℕ} (word : CppString) :
    ∀ {elements : List ElementPositionRec},
    (∀ it ∈ elements, WordHolds file numBuckets it.elementPosition.toNat i) →
    ∃ found, indexTableLoop file word elements = .ok found ∧
      ∀ r ∈ found, TableHolds (PostingHolds file) file r.offset
  | [], _ => ⟨none, rfl, nofun⟩
  | it :: elements, h => by
    have hrest := indexTableLoop_holds word fun it' hit => h it' (List.mem_cons_of_mem it hit)
    obtain ⟨header, hrecord, ⟨ss, hss, -⟩, htable⟩ := h it List.mem_cons_self
    rw [indexTableLoop]
    rw [freadStruct_ok_iff.mpr hrecord, ok_bind]
    split
    · exact hrest
    · rw [freadChars_of_readAt hss, ok_bind]
      split
      · obtain ⟨tableHeader, htableHeader, -⟩ := id htable
        rw [newHashTableReader, freadStruct_ok_iff.mpr htableHeader, ok_bind]
        refine ⟨some _, rfl, fun r hr => ?_⟩
        obtain rfl := Option.some.inj hr
        exact htable
      · exact hrest

end Lookup

/-! ## GetDocIDList -/

section List

/-- What a loop collects comes from one of its iterations. -/
theorem IsLoop.exists_of_mem {α β γ : Type} {loop : ℕ → ℕ → Except Stop β}
    {step : ℕ → Except Stop α} {join : α → β → β} {last : β} {P : γ → α → Prop}
    {Q : γ → β → Prop} (h : IsLoop loop step join last) (hlast : ∀ x, ¬ Q x last)
    (hjoin : ∀ x a b, Q x (join a b) → P x a ∨ Q x b) :
    ∀ {left i : ℕ} {b : β}, loop left i = .ok b → ∀ x, Q x b →
      ∃ k < left, ∃ a, step (i + k) = .ok a ∧ P x a
  | 0, i, b, hrun, x, hx => by
    rw [h.zero] at hrun
    obtain rfl := Except.ok.inj hrun
    exact absurd hx (hlast x)
  | left + 1, i, b, hrun, x, hx => by
    rw [h.succ] at hrun
    obtain ⟨a, hstep, hrun⟩ := ok_of_bind hrun
    obtain ⟨rest, hrest, hrun⟩ := ok_of_bind hrun
    obtain rfl := Except.ok.inj hrun
    rcases hjoin x a rest hx with hx | hx
    · exact ⟨0, Nat.succ_pos left, a, hstep, hx⟩
    · obtain ⟨k, hk, a', hstep', hx⟩ := h.exists_of_mem hlast hjoin hrest x hx
      refine ⟨k + 1, Nat.succ_lt_succ hk, a', ?_, hx⟩
      rwa [Nat.add_comm k 1, ← Nat.add_assoc]

variable {file : List UInt8} {r : HashTableReader}

/-- A header on the list is that of an element of a chain of the table. -/
theorem getDocIDList_mem {list : List DocidElementHeader} (hrun : getDocIDList r = .ok list) :
    ∀ header ∈ list, ∃ i < r.header.numBuckets.toNat, ∃ bRec,
      bucketRecAt r.file r.offset i = some bRec ∧ ∃ j < bRec.chainLen.toNat, ∃ ep,
        positionAt r.file bRec j = some ep ∧
          recordAt DocidElementHeader r.file ep.elementPosition.toNat = some header := by
  intro header hheader
  obtain ⟨i, hi, bucket, hbucket, hmem⟩ := (isLoop_docIDListLoop r).exists_of_mem
    (P := (· ∈ ·)) (Q := (· ∈ ·)) (fun x => List.not_mem_nil) (fun x a b => List.mem_append.mp)
    hrun header hheader
  rw [Nat.zero_add] at hbucket
  obtain ⟨bRec, hrec, hchain⟩ := ok_of_bind hbucket
  obtain ⟨j, hj, docEl, hstep, heq⟩ := (isLoop_docIDListBucket bRec).exists_of_mem
    (P := (· = ·)) (Q := (· ∈ ·)) (fun x => List.not_mem_nil) (fun x a b => List.mem_cons.mp)
    hchain header hmem
  rw [Nat.zero_add] at hstep
  obtain ⟨ep, hep, hdocEl⟩ := ok_of_bind hstep
  obtain rfl := heq
  exact ⟨i, hi, bRec, freadUnchecked_ok_iff.mp hrec, j, hj, ep, freadStruct_ok_iff.mp hep,
    freadUnchecked_ok_iff.mp hdocEl⟩

/-- The list of the documents of a word is read in full, and each document on it is found by
a lookup, with approved positions. -/
theorem getDocIDList_holds (hfile : r.file = file)
    (hheader : recordAt BucketListHeader file r.offset = some r.header)
    (h : TableHolds (PostingHolds file) file r.offset) :
    ∃ list, getDocIDList r = .ok list ∧ ∀ header ∈ list, ∃ positions,
      docIDTableLookupDocID r header.docid = .ok (some positions) ∧
        ApprovedPositions positions := by
  obtain ⟨header, hheader', htable⟩ := id h
  obtain rfl := Option.some.inj (hheader.symm.trans hheader')
  have hcompletes : Completes (getDocIDList r) := by
    rw [getDocIDList, (isLoop_docIDListLoop r).completes_iff]
    intro i hi
    rw [Nat.zero_add, completes_bucketStep_iff, hfile]
    obtain ⟨bRec, hrec, hchain⟩ := htable i hi
    refine ⟨bRec, hrec, fun j hj => ?_⟩
    obtain ⟨ep, hep, posting, hrecord, -⟩ := hchain j hj
    exact ⟨ep, hep, posting, hrecord⟩
  obtain ⟨list, hrun⟩ := hcompletes
  refine ⟨list, hrun, fun posting hposting => ?_⟩
  obtain ⟨i, hi, bRec, hrec, j, hj, ep, hep, hrecord⟩ := getDocIDList_mem hrun posting hposting
  rw [hfile] at hrec hep hrecord
  obtain ⟨bRec', hrec', hchain⟩ := htable i hi
  obtain rfl := Option.some.inj (hrec.symm.trans hrec')
  obtain ⟨ep', hep', posting', hrecord', hbucket, -⟩ := hchain j hj
  obtain rfl := Option.some.inj (hep.symm.trans hep')
  obtain rfl := Option.some.inj (hrecord.symm.trans hrecord')
  -- the document is in the bucket in which a lookup searches
  have hlt := r.header.numBuckets.toNat_lt
  have hmod := Nat.mod_lt posting.docid.toNat (Nat.zero_lt_of_lt hi)
  rw [u32_of_lt (by omega)] at hbucket
  have hbuckets : r.header.numBuckets ≠ 0 := by
    intro hzero
    rw [hzero] at hi
    exact absurd hi (Nat.not_lt_zero i)
  obtain ⟨elements, hlookup, helements, hmem⟩ := lookupElementPositions_holds hfile hheader h
    hbuckets posting.docid
  obtain ⟨found, hloop, hfound, hsome⟩ := docIDTableLoop_holds posting.docid helements
  rw [hbucket] at hrec
  obtain ⟨positions, rfl⟩ := Option.isSome_iff_exists.mp
    (hsome ep (hmem bRec hrec j hj ep hep) posting hrecord rfl)
  refine ⟨positions, ?_, hfound positions rfl⟩
  rw [docIDTableLookupDocID, hlookup, ok_bind, hfile]
  exact hloop

end List

/-! ## The readers of an approved file -/

/-- The checker approves a file: it gets to its end and reports no mismatch. -/
def Approves (filename : String) (file : List UInt8) : Prop :=
  ∃ output, fileIndexChecker filename file [] = .ok ((), output) ∧ Clean output

/-- The elements of the table of a reader. -/
def TableKind.Holds (kind : TableKind) (file : List UInt8) : ℕ → ℕ → ℕ → Prop :=
  match kind with
  | .docTable => DocHolds file
  | .indexTable => WordHolds file
  | .docIDTable => PostingHolds file

/-- The call returns, and what it finds is in order: names and posting lists are approved, and
every document on a list is found by a lookup. -/
def ReaderCall.Returns {kind : TableKind} (r : HashTableReader) : ReaderCall kind → Prop
  | .lookupElementPositions hashKey =>
    Completes (MultithreadedWebServer.lookupElementPositions r hashKey)
  | .lookupDocName docid => ∃ found, docTableLookupDocID r docid = .ok found ∧
    ∀ name ∈ found, ApprovedName name
  | .lookupWord word => Completes (MultithreadedWebServer.lookupWord r word)
  | .lookupDocID docid => ∃ found, docIDTableLookupDocID r docid = .ok found ∧
    ∀ positions ∈ found, ApprovedPositions positions
  | .getDocIDList => ∃ list, MultithreadedWebServer.getDocIDList r = .ok list ∧
    ∀ header ∈ list, ∃ positions, docIDTableLookupDocID r header.docid = .ok (some positions) ∧
      ApprovedPositions positions

/-- The call is a lookup. -/
def ReaderCall.isLookup {kind : TableKind} : ReaderCall kind → Bool
  | .getDocIDList => false
  | _ => true

section Approved

variable {file : List UInt8} {header : IndexFileHeader} {kind : TableKind} {r : HashTableReader}

/-- The reader accepts an approved file. -/
theorem FileHolds.accepted (h : FileHolds file header) (hsize : file.length < 2 ^ 32) :
    newFileIndexReader file true = .ok ⟨file, header⟩ := by
  obtain ⟨crc, hcrc, hchecksum⟩ := h.checksum
  obtain ⟨bytes, hread, -⟩ := Option.map_eq_some_iff.mp h.start
  have hlong : 0 + 16 ≤ file.length := (readAt_eq_some_iff.mp hread).1
  have htables := h.tables
  rw [u32_of_lt hsize, u32Sub_of_le (by omega) hsize] at htables
  have htotal :
      u32 file.length = u32 (16 + header.doctableSize.toNat + header.indexSize.toNat) := by
    rw [u32] at htables ⊢
    rw [u32]
    omega
  rw [newFileIndexReader, freadStruct_ok_iff.mpr h.start, ok_bind,
    if_neg (not_not.mpr h.magic), if_neg (not_not.mpr htotal), if_pos rfl]
  dsimp only
  rw [hcrc, ok_bind, if_neg (not_not.mpr hchecksum)]
  rfl

theorem newHashTableReader_holds {E : ℕ → ℕ → ℕ → Prop} {offset : ℕ}
    (h : TableHolds E file offset) : ∃ r, newHashTableReader file offset = .ok r := by
  obtain ⟨header, hheader, -⟩ := h
  rw [newHashTableReader, freadStruct_ok_iff.mpr hheader]
  exact ⟨_, rfl⟩

theorem newHashTableReader_offset {offset : ℕ} (h : newHashTableReader file offset = .ok r) :
    r.offset = offset := by
  obtain ⟨header, -, h⟩ := ok_of_bind h
  rw [← Except.ok.inj h]

/-- The table of every reader of the file has approved elements. -/
theorem FileHolds.opened (h : FileHolds file header) (hsize : file.length < 2 ^ 32)
    (hopened : Opened file kind r) : TableHolds (kind.Holds file) file r.offset := by
  induction hopened with
  | docTable hfir hreader =>
    obtain rfl := Except.ok.inj ((h.accepted hsize).symm.trans hfir)
    rw [newHashTableReader_offset hreader]
    exact h.docTable
  | indexTable hfir hreader =>
    obtain rfl := Except.ok.inj ((h.accepted hsize).symm.trans hfir)
    rw [newHashTableReader_offset hreader]
    exact h.indexTable
  | @docIDTable index r word hindex hword ih =>
    obtain ⟨hfile, hheader⟩ := hindex.header
    obtain ⟨elements, hlookup, hloop⟩ := ok_of_bind hword
    by_cases hbuckets : index.header.numBuckets = 0
    · rw [lookupElementPositions, if_pos hbuckets] at hlookup
      cases hlookup
    · obtain ⟨elements', hlookup', helements, -⟩ := lookupElementPositions_holds
        (E := WordHolds file) hfile hheader ih hbuckets (fnvHash64 _ _)
      obtain rfl := Except.ok.inj (hlookup'.symm.trans hlookup)
      obtain ⟨found, hloop', hfound⟩ := indexTableLoop_holds _ helements
      rw [hfile] at hloop
      obtain rfl := Except.ok.inj (hloop'.symm.trans hloop)
      exact hfound _ rfl

/-- In a table with a bucket a lookup returns. -/
theorem returns_of_holds (hopened : Opened file kind r)
    (h : TableHolds (kind.Holds file) file r.offset) (call : ReaderCall kind)
    (hcall : call.isLookup = true → r.header.numBuckets ≠ 0) : call.Returns r := by
  obtain ⟨hfile, hheader⟩ := hopened.header
  cases call with
  | lookupElementPositions hashKey =>
    obtain ⟨elements, hlookup, -⟩ :=
      lookupElementPositions_holds hfile hheader h (hcall rfl) hashKey
    exact ⟨elements, hlookup⟩
  | lookupDocName docid =>
    obtain ⟨elements, hlookup, helements, -⟩ := lookupElementPositions_holds hfile hheader h
      (hcall rfl) docid
    rw [ReaderCall.Returns, docTableLookupDocID, hlookup, ok_bind, hfile]
    exact docTableLoop_holds docid helements
  | lookupWord word =>
    obtain ⟨elements, hlookup, helements, -⟩ := lookupElementPositions_holds
      (E := WordHolds file) hfile hheader h (hcall rfl) (fnvHash64 word (u32 word.length))
    obtain ⟨found, hloop, -⟩ := indexTableLoop_holds word helements
    rw [ReaderCall.Returns, lookupWord, hlookup, ok_bind, hfile]
    exact ⟨found, hloop⟩
  | lookupDocID docid =>
    obtain ⟨elements, hlookup, helements, -⟩ := lookupElementPositions_holds hfile hheader h
      (hcall rfl) docid
    obtain ⟨found, hloop, hfound, -⟩ := docIDTableLoop_holds docid helements
    rw [ReaderCall.Returns, docIDTableLookupDocID, hlookup, ok_bind, hfile]
    exact ⟨found, hloop, hfound⟩
  | getDocIDList => exact getDocIDList_holds hfile hheader h

/-- A lookup that returns did not divide by zero. -/
theorem buckets_of_returns {call : ReaderCall kind} (h : call.Returns r)
    (hcall : call.isLookup = true) : r.header.numBuckets ≠ 0 := by
  intro hzero
  have hfault (key : UInt64) : lookupElementPositions r key = .error .fault := by
    rw [lookupElementPositions, if_pos hzero]
    rfl
  cases call with
  | lookupElementPositions hashKey =>
    obtain ⟨elements, hrun⟩ := h
    cases (hfault hashKey).symm.trans hrun
  | lookupDocName docid =>
    obtain ⟨found, hrun, -⟩ := h
    rw [docTableLookupDocID, hfault] at hrun
    cases hrun
  | lookupWord word =>
    obtain ⟨found, hrun⟩ := h
    rw [lookupWord, hfault] at hrun
    cases hrun
  | lookupDocID docid =>
    obtain ⟨found, hrun, -⟩ := h
    rw [docIDTableLookupDocID, hfault] at hrun
    cases hrun
  | getDocIDList => cases hcall

end Approved

/-- A file that the checker approves, of less than 4 GiB, is opened and validated by the
reader. Every call of every reader of it returns approved names and posting lists, but a
lookup only where the table has a bucket: the checker does not ask for one. -/
theorem approved_file_is_readable (filename : String) (file : List UInt8)
    (hsize : file.length < 2 ^ 32) (h : Approves filename file) :
    (∃ fir docs index, newFileIndexReader file true = .ok fir ∧
      getDocTableReader fir = .ok docs ∧ getIndexTableReader fir = .ok index) ∧
      ∀ kind r, Opened file kind r → ∀ call : ReaderCall kind,
        call.Returns r ↔ (call.isLookup = true → r.header.numBuckets ≠ 0) := by
  obtain ⟨output, hrun, hclean⟩ := h
  obtain ⟨header, hholds⟩ := (ensures_fileIndexChecker filename hsize [] () output hrun).2 hclean
  obtain ⟨docs, hdocs⟩ := newHashTableReader_holds hholds.docTable
  obtain ⟨index, hindex⟩ := newHashTableReader_holds hholds.indexTable
  refine ⟨⟨_, docs, index, hholds.accepted hsize, hdocs, hindex⟩, fun kind r hopened call => ?_⟩
  exact ⟨buckets_of_returns, returns_of_holds hopened (hholds.opened hsize hopened) call⟩

/-- The readers of the file of three words in two documents. -/
theorem approved_file_is_readable_letters :
    (∃ fir docs index, newFileIndexReader (fileImage lettersIndex lettersDocTable) true = .ok fir ∧
      getDocTableReader fir = .ok docs ∧ getIndexTableReader fir = .ok index) ∧
      ∀ kind r, Opened (fileImage lettersIndex lettersDocTable) kind r → ∀ call : ReaderCall kind,
        call.Returns r ↔ (call.isLookup = true → r.header.numBuckets ≠ 0) := by
  have hsize := plainFormat_letters.size
  obtain ⟨output, hrun, hclean⟩ := plainFormat_letters.passes_file "index.idx" []
  exact approved_file_is_readable "index.idx" _ (by omega) ⟨output, hrun, hclean⟩

end MultithreadedWebServer
