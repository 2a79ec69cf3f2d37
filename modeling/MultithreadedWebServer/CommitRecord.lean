import MultithreadedWebServer.IndexRoundTrip
import MultithreadedWebServer.WriterOutcomes

/-!
# A written index is complete, or has no magic number

When no call fails, `WriteDocTable` and `WriteMemIndex` tile two adjacent ranges behind the
header, and the header goes out in one write at the end. So a process that dies anywhere on
the way leaves a file without the magic number: the header commits the file.
-/

namespace MultithreadedWebServer

/-! ## The magic number -/

/-- The four bytes at the start of an index file. -/
def magicBytes : List UInt8 := leBytes 4 (htonl magicNumber).toNat

/-- A file starts with the magic number, where bytes that are not there read as zero. -/
def HasMagic (b : List UInt8) : Prop := (b ++ List.replicate 4 0).take 4 = magicBytes

instance (b : List UInt8) : Decidable (HasMagic b) := inferInstanceAs (Decidable (_ = _))

/-- A file with the magic number in its header has the magic number. -/
theorem hasMagic_header {header : IndexFileHeader} (h : header.magicNumber = magicNumber)
    (rest : List UInt8) : HasMagic (onDisk header ++ rest) := by
  have hbytes : onDisk header = leBytes 4 (htonl header.magicNumber).toNat ++
      (leBytes 4 (htonl header.checksum).toNat ++ (leBytes 4 (htonl header.doctableSize).toNat ++
        (leBytes 4 (htonl header.indexSize).toNat ++ []))) := rfl
  rw [HasMagic, hbytes, h, List.append_assoc, List.append_assoc]
  exact List.take_left' (length_leBytes _ _)

/-- A file without the magic number is rejected. -/
theorem newFileIndexReader_noMagic {b : List UInt8} (h : ¬ HasMagic b) (validate : Bool) :
    newFileIndexReader b validate = .error .verify333 := by
  rw [newFileIndexReader, freadStruct]
  rcases hread : readAt b 0 (DiskStruct.size IndexFileHeader) with _ | bytes
  · rfl
  · have hlen : DiskStruct.size IndexFileHeader = 16 := rfl
    rw [readAt, hlen] at hread
    split at hread
    · rename_i hfit
      obtain rfl := Option.some.inj hread
      have hmagic : (ofDisk ((b.drop 0).take 16) : IndexFileHeader).magicNumber ≠ magicNumber := by
        intro heq
        apply h
        have hfield : ntohl (UInt32.ofNat (field 0 4 (b.take 16))) = magicNumber := heq
        have hswap : UInt32.ofNat (field 0 4 (b.take 16)) = htonl magicNumber := by
          rw [← hfield]
          exact (ntohl_htonl _).symm
        have htake : (b.take 16).take 4 = b.take 4 := by
          rw [List.take_take]
          rfl
        have hfour : (b.take 4).length = 4 := by
          rw [List.length_take]
          omega
        have hlt := leValue_lt (b.take 4)
        rw [hfour] at hlt
        rw [field, List.drop_zero, htake] at hswap
        have hvalue : leValue (b.take 4) = (htonl magicNumber).toNat := by
          rw [← hswap, UInt32.toNat_ofNat_of_lt' hlt]
        have hbytes := leBytes_leValue (b.take 4)
        rw [hfour, hvalue] at hbytes
        rw [HasMagic, List.take_append_of_le_length (by omega)]
        exact hbytes.symm
      exact if_pos hmagic
    · cases hread

/-- What is written behind the header leaves no magic number. -/
theorem not_hasMagic_replay {ws : Log} (h : Above 16 ws) : ¬ HasMagic (replay [] ws) := by
  intro hmagic
  have hfirst : (replay [] ws ++ List.replicate 4 0)[0]? = some (0 : UInt8) := by
    rw [List.getElem?_append]
    split
    · rename_i hlen
      rcases replay_below ws h [] (show 0 < 16 by omega) with hzero | ⟨-, hzero⟩
      · rw [List.getElem?_nil] at hzero
        exact absurd hlen (by have := List.getElem?_eq_none_iff.mp hzero; omega)
      · exact hzero
    · rename_i hlen
      have hnil : (replay [] ws).length = 0 := by omega
      rw [hnil]
      rfl
  have hbytes : magicBytes[0]? = some 0 := by
    rw [← hmagic, List.getElem?_take_of_lt (by decide), hfirst]
  revert hbytes
  decide

/-! ## A run without failures -/

/-- A table that is written without a failure tiles its region. -/
theorem Outcome.tiles {m : WriterCalls ℕ} {j j' : Journal} {p n x : ℕ} {bad : Except Stop ℕ → Prop}
    {a : Option (Tally × List Bool)}
    (h : Outcome p j bad (WriterCalls.TableWritten p n) a (Calls.exec record m j))
    (hquiet : j.file.verdicts = []) (hrun : Calls.exec record m j = (.ok x, j')) (hx : 0 < x) :
    ∃ ws, j.Extends j' ws 0 ∧ Above p ws ∧ (WriterCalls.touched ws).Perm (List.range' p x) := by
  have hfailures := (exec_failures_quiet m hquiet).2
  rw [hrun] at h hfailures
  cases h with
  | noticed hr hext habove =>
    have hcount := hext.failures
    dsimp only at hfailures
    omega
  | @returned _ t _ ws hgood hext habove =>
    have hcount := hext.failures
    dsimp only at hfailures
    have hmissed : t.missed = 0 := by omega
    rw [hmissed] at hext
    rcases hgood with hw | ⟨rfl, -, -⟩
    · rw [hw.value]
      exact ⟨ws, hext, habove, hw.tiles hmissed⟩
    · exact absurd hx (Nat.lt_irrefl 0)

/-- The writes of `WriteIndex` when no call fails. -/
structure IndexWrites (mi : MemIndex) (dt : DocTable) (f : IndexFile) (docSize indexSize : ℕ)
    (docs index : Log) (header : IndexFileHeader) (j : Journal) : Prop where
  /-- `WriteDocTable` starts behind the header -/
  docTable : ∃ j₁, Calls.exec record (WriterCalls.writeDocTable dt 16) (WriterCalls.opened f) =
    (.ok docSize, j₁) ∧ j₁.writes = docs ∧
    -- and `WriteMemIndex` behind that
    ∃ j₂, Calls.exec record (WriterCalls.writeMemIndex mi (16 + docSize)) j₁ =
      (.ok indexSize, j₂) ∧ j₂.writes = docs ++ index
  /-- each address of the document table is written once -/
  docTiles : (WriterCalls.touched docs).Perm (List.range' 16 docSize)
  /-- each address of the index table is written once -/
  indexTiles : (WriterCalls.touched index).Perm (List.range' (16 + docSize) indexSize)
  /-- no write starts in the header -/
  above : Above 16 (docs ++ index)
  /-- the header is written at the end -/
  writes : j.writes = docs ++ index ++ [(0, onDisk header)]
  /-- it has the magic number -/
  magic : header.magicNumber = magicNumber
  /-- the size of the file is returned -/
  returns : Calls.exec record (WriterCalls.writeIndex mi dt) (.blank f) =
    (.ok j.file.content.length, j)
  /-- the file is as long as its parts -/
  size : j.file.content.length = 16 + (docSize + indexSize)
  /-- it is the image of the index -/
  file : ∃ pos, j.file = quiet (fileImage mi dt) pos

section Quiet

variable {mi : MemIndex} {dt : DocTable}

/-- A journal follows the file. -/
theorem exec_of_writes {m : WriterCalls ℕ} {m' : Run IndexFile ℕ} {p pos : ℕ} {b d : List UInt8}
    {j : Journal} (hm : Calls.run perform m = m') (hwrites : Writes m' p d)
    (hj : j.file = quiet b pos) : ∃ j' pos', Calls.exec record m j = (.ok d.length, j') ∧
      j'.file = quiet (writeAt b p d) pos' := by
  obtain ⟨pos', hrun⟩ := hwrites b pos
  rw [← hm, ← hj] at hrun
  have hexec := Calls.exec_of_run hrun
  obtain ⟨hresult, hfile⟩ := exec_record_quiet m (show j.file.verdicts = [] by rw [hj]; rfl)
  rw [hexec] at hresult hfile
  exact ⟨(Calls.exec record m j).2, pos', Prod.ext hresult rfl, hfile⟩

theorem writeIndex_writes (h : FitsFormat mi dt) {f : IndexFile} (hio : f.verdicts = [])
    (hmallocs : f.mallocs = []) : ∃ docSize indexSize docs index header j,
      IndexWrites mi dt f docSize indexSize docs index header j := by
  obtain ⟨linked, content, pos, verdicts, mallocs⟩ := f
  obtain rfl : verdicts = [] := hio
  obtain rfl : mallocs = [] := hmallocs
  have hsize := h.size
  rw [length_fileImage] at hsize
  have hopened : (WriterCalls.opened ⟨linked, content, pos, [], []⟩).file = quiet [] 0 := rfl
  have hoffset : u32 (16 + (docTableImage dt).length) = 16 + (docTableImage dt).length :=
    u32_of_lt (by omega)
  have hdocPos : 0 < (docTableImage dt).length := by
    rw [docTableImage, length_tableImage]
    omega
  have hindexPos : 0 < (indexTableImage mi dt).length := by
    rw [indexTableImage, length_tableImage]
    omega
  obtain ⟨j₁, pos₁, hdoc, hfile₁⟩ := exec_of_writes (WriterCalls.run_writeDocTable dt 16)
    (writeDocTable_writes h) hopened
  obtain ⟨j₂, pos₂, hindex, hfile₂⟩ := exec_of_writes (WriterCalls.run_writeMemIndex mi _)
    (writeMemIndex_writes h) hfile₁
  rw [writeAt_append] at hfile₂
  obtain ⟨docs, hdocExt, hdocAbove, hdocTiles⟩ := Outcome.tiles
    (WriterCalls.writeDocTable_outcome h rfl) rfl hdoc hdocPos
  obtain ⟨index, hindexExt, hindexAbove, hindexTiles⟩ := Outcome.tiles
    (WriterCalls.writeMemIndex_outcome h (Nat.le_refl _) (by rw [hfile₁]; rfl))
    (by rw [hfile₁]; rfl) hindex hindexPos
  -- the header
  obtain ⟨pos₃, hheader⟩ := writeHeader_returns h pos₂
  rw [← WriterCalls.run_writeHeader] at hheader
  obtain ⟨hresult, hfile₃⟩ := exec_record_quiet (WriterCalls.writeHeader (docTableImage dt).length
    (indexTableImage mi dt).length) (show j₂.file.verdicts = [] by rw [hfile₂]; rfl)
  have hfiles : writeAt [] 16 (docTableImage dt ++ indexTableImage mi dt) =
    writeAt [] 16 (tablesImage mi dt) := rfl
  rw [hfile₂, hfiles, Calls.exec_of_run hheader] at hresult hfile₃
  rcases WriterCalls.writeHeader_exec (j := j₂) hdocPos (show (docTableImage dt).length +
    (indexTableImage mi dt).length < 2 ^ 32 by omega) with
    ⟨header, hmagic, -, -, j₃, hrun, hext⟩ | ⟨r, j', n, hrun, hr, -⟩
  · rw [hrun] at hfile₃
    have hlen : (fileImage mi dt).length = j₃.file.content.length := by rw [hfile₃]; rfl
    have hfinish : Calls.exec record (WriterCalls.finishIndex (docTableImage dt).length
        (indexTableImage mi dt).length) j₂ = (.ok j₃.file.content.length, j₃) := by
      rw [WriterCalls.finishIndex, Calls.exec_bind_ok hrun, ← hlen, length_fileImage,
        u32_of_lt (show (docTableImage dt).length + (indexTableImage mi dt).length < 2 ^ 32 by
          omega), Nat.add_comm 16]
      exact congrArg (fun n => ((.ok n : Except Stop ℕ), j₃)) (u32_of_lt (by omega))
    refine ⟨(docTableImage dt).length, (indexTableImage mi dt).length, docs, index, header, j₃,
      ⟨j₁, hdoc, hdocExt.writes, j₂, hindex, ?_⟩, hdocTiles, hindexTiles, ?_, ?_, hmagic, ?_,
      hlen.symm.trans (length_fileImage mi dt), ⟨_, hfile₃⟩⟩
    · rw [hindexExt.writes, hdocExt.writes]
      rfl
    · exact above_append.mpr ⟨hdocAbove, hindexAbove.mono (Nat.le_add_right _ _)⟩
    · rw [hext.writes, hindexExt.writes, hdocExt.writes]
      rfl
    · rw [WriterCalls.exec_writeIndex hdoc (Nat.pos_iff_ne_zero.mp hdocPos), hoffset,
        Calls.exec_bind_ok hindex]
      exact hfinish
  · rw [hrun] at hresult
    rcases hr with rfl | rfl <;> cases hresult

/-- The file is the one that `WriteIndex` leaves. -/
theorem IndexWrites.run_returns {f : IndexFile} {docSize indexSize : ℕ} {docs index : Log}
    {header : IndexFileHeader} {j : Journal} (h : FitsFormat mi dt) (hio : f.verdicts = [])
    (hmallocs : f.mallocs = []) (hj : IndexWrites mi dt f docSize indexSize docs index header j) :
    (writeIndex mi dt).Returns f j.file.content.length j.file := by
  obtain ⟨pos, hrun⟩ := writeIndex_returns h hio hmallocs
  have hexec := hrun
  rw [← WriterCalls.run_writeIndex] at hexec
  have hfile := (exec_record_quiet (WriterCalls.writeIndex mi dt) (j := .blank f) hio).2
  rw [hj.returns, show (Journal.blank f).file = f from rfl, Calls.exec_of_run hexec] at hfile
  rw [hfile]
  exact hrun

/-- The two loops over the checksum agree on a file that is as long as they think. -/
theorem checksums_agree {b : List UInt8} {n : ℕ} (hn : (b.drop 16).length = n)
    (hfit : n < 2 ^ 32) : ∃ crc f, (foldFile n crcInit).Returns (quiet b 16) crc f ∧
      crcLoop b (n + 1) 16 n crcInit = .ok crc := by
  have hat : BytesAt b 16 (b.drop 16) := List.prefix_refl _
  have hfold := foldFile_returns crcInit hat
  rw [hn] at hfold
  exact ⟨_, _, hfold, crcLoop_spec (n + 1) crcInit hn (Nat.lt_succ_self n) hfit⟩

end Quiet

/-! ## The two properties -/

/-- When no call fails, the tables of an index file are written without overlap and without
a gap, the size of the file is returned, the two loops over the checksum agree on the file,
and a reader that validates accepts it. -/
theorem written_index_validates (mi : MemIndex) (dt : DocTable) (h : FitsFormat mi dt)
    (f : IndexFile) (hio : f.verdicts = []) (hmallocs : f.mallocs = []) :
    ∃ docSize indexSize docs index header j,
      IndexWrites mi dt f docSize indexSize docs index header j ∧
      (writeIndex mi dt).Returns f j.file.content.length j.file ∧
      (∃ crc f', (foldFile (docSize + indexSize) crcInit).Returns (quiet j.file.content 16) crc f' ∧
        crcLoop j.file.content (docSize + indexSize + 1) 16 (docSize + indexSize) crcInit =
          .ok crc) ∧
      ∃ fir, newFileIndexReader j.file.content true = .ok fir := by
  obtain ⟨docSize, indexSize, docs, index, header, j, hj⟩ := writeIndex_writes h hio hmallocs
  obtain ⟨pos, hfile⟩ := hj.file
  have hcontent : j.file.content = fileImage mi dt := by rw [hfile]; rfl
  refine ⟨docSize, indexSize, docs, index, header, j, hj, hj.run_returns h hio hmallocs,
    checksums_agree ?_ ?_, ?_⟩
  · rw [List.length_drop, hj.size, Nat.add_sub_cancel_left]
  · have hsize := h.size
    rw [← hcontent, hj.size] at hsize
    omega
  · rw [hcontent]
    exact ⟨_, newFileIndexReader_fileImage h true⟩

/-- The file of three words in two documents. -/
theorem written_index_validates_letters : ∃ docSize indexSize docs index header j,
    IndexWrites lettersIndex lettersDocTable ⟨false, [], 0, [], []⟩ docSize indexSize docs
      index header
      j ∧
    (writeIndex lettersIndex lettersDocTable).Returns ⟨false, [], 0, [], []⟩ j.file.content.length
      j.file ∧
    (∃ crc f', (foldFile (docSize + indexSize) crcInit).Returns (quiet j.file.content 16) crc f' ∧
      crcLoop j.file.content (docSize + indexSize + 1) 16 (docSize + indexSize) crcInit =
        .ok crc) ∧
    ∃ fir, newFileIndexReader j.file.content true = .ok fir :=
  written_index_validates lettersIndex lettersDocTable fitsFormat_letters
    ⟨false, [], 0, [], []⟩ rfl rfl

/-- A process that dies after some of the writes leaves a file without the magic number,
which every reader rejects. With the last write the magic number is there, and the file
validates. No write before the last one is in the header. -/
theorem magic_number_commits (mi : MemIndex) (dt : DocTable) (h : FitsFormat mi dt)
    (f : IndexFile) (hio : f.verdicts = []) (hmallocs : f.mallocs = []) :
    ∃ size j, Calls.exec record (WriterCalls.writeIndex mi dt) (.blank f) = (.ok size, j) ∧
      (writeIndex mi dt).Returns f size j.file ∧ j.file.content = replay [] j.writes ∧
      (∀ ws, ws <+: j.writes → ws ≠ j.writes → ¬ HasMagic (replay [] ws) ∧
        ∀ validate, newFileIndexReader (replay [] ws) validate = .error .verify333) ∧
      Above 16 j.writes.dropLast ∧ HasMagic (replay [] j.writes) ∧
      ∃ fir, newFileIndexReader (replay [] j.writes) true = .ok fir := by
  obtain ⟨docSize, indexSize, docs, index, header, j, hj⟩ := writeIndex_writes h hio hmallocs
  obtain ⟨pos, hfile⟩ := hj.file
  have hcontent : j.file.content = fileImage mi dt := by rw [hfile]; rfl
  have hfaithful := WriterCalls.exec_writeIndex_faithful mi dt f
  rw [hj.returns] at hfaithful
  have hreplay := hfaithful.content
  refine ⟨_, j, hj.returns, hj.run_returns h hio hmallocs, hreplay, fun ws hws hne => ?_, ?_,
    ?_, ?_⟩
  · have habove : Above 16 ws := by
      rw [hj.writes] at hws hne
      rcases List.prefix_concat_iff.mp hws with heq | hws
      · exact absurd heq hne
      · exact fun w hw => hj.above w (hws.subset hw)
    have hmagic := not_hasMagic_replay habove
    exact ⟨hmagic, newFileIndexReader_noMagic hmagic⟩
  · rw [hj.writes, List.dropLast_concat]
    exact hj.above
  · rw [← hreplay, hcontent]
    exact hasMagic_header rfl _
  · rw [← hreplay, hcontent]
    exact ⟨_, newFileIndexReader_fileImage h true⟩

/-- The writes of that file. -/
theorem magic_number_commits_letters : ∃ size j,
    Calls.exec record (WriterCalls.writeIndex lettersIndex lettersDocTable)
      (.blank ⟨false, [], 0, [], []⟩) = (.ok size, j) ∧
    (writeIndex lettersIndex lettersDocTable).Returns ⟨false, [], 0, [], []⟩ size j.file ∧
    j.file.content = replay [] j.writes ∧
    (∀ ws, ws <+: j.writes → ws ≠ j.writes → ¬ HasMagic (replay [] ws) ∧
      ∀ validate, newFileIndexReader (replay [] ws) validate = .error .verify333) ∧
    Above 16 j.writes.dropLast ∧ HasMagic (replay [] j.writes) ∧
    ∃ fir, newFileIndexReader (replay [] j.writes) true = .ok fir :=
  magic_number_commits lettersIndex lettersDocTable fitsFormat_letters
    ⟨false, [], 0, [], []⟩ rfl rfl

end MultithreadedWebServer
