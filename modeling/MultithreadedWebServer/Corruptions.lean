import MultithreadedWebServer.Crc32
import MultithreadedWebServer.IndexRoundTrip

/-!
# What the checksum of an index file covers

`left_to_read` is a 32-bit counter, and the length that it starts from was only compared
modulo 2^32. It stays congruent to the number of bytes that are left to read, which is why the
loop ends, and why it folds in all of a file of less than 2^32 bytes. A change to a few adjacent
bytes of such a file is then always noticed.
-/

namespace MultithreadedWebServer

/-! ## The loop over the file -/

/-- The bytes that the loop of the constructor of `FileIndexReader` folds into the checksum. -/
def crcLoopBytes (file : List UInt8) : ℕ → ℕ → ℕ → Except Stop (List UInt8)
  | 0, _, _ => throw .diverges
  | fuel + 1, pos, leftToRead =>
    if leftToRead = 0 then
      return []
    else do
      let buf := (file.drop pos).take 512
      let bytes ← crcLoopBytes file fuel (pos + buf.length) (u32Sub leftToRead buf.length)
      return buf ++ bytes

theorem crcLoop_eq_bytes (file : List UInt8) (fuel pos leftToRead : ℕ) (crc : UInt32) :
    crcLoop file fuel pos leftToRead crc = do
      let bytes ← crcLoopBytes file fuel pos leftToRead
      return bytes.foldl foldByteIntoCRC crc := by
  induction fuel generalizing pos leftToRead crc with
  | zero => rfl
  | succ fuel ih =>
    rw [crcLoop, crcLoopBytes]
    by_cases hleft : leftToRead = 0
    · rw [if_pos hleft, if_pos hleft]
      rfl
    · rw [if_neg hleft, if_neg hleft]
      dsimp only
      rw [ih]
      cases crcLoopBytes file fuel (pos + ((file.drop pos).take 512).length)
          (u32Sub leftToRead ((file.drop pos).take 512).length) with
      | error e => rfl
      | ok bytes => exact congrArg Except.ok (List.foldl_append).symm

/-- The counter counts modulo 2^32. -/
theorem u32Sub_u32 {n k : ℕ} (hk : k ≤ n) (hsmall : k ≤ 512) : u32Sub (u32 n) k = u32 (n - k) := by
  unfold u32Sub u32
  omega

/-- As long as the counter agrees with the file modulo 2^32, the loop ends. What it folds in is
a prefix of what is left of the file, and all of it unless that is 2^32 bytes or more. -/
theorem crcLoopBytes_spec (file : List UInt8) (fuel : ℕ) {pos leftToRead : ℕ}
    (hleft : leftToRead = u32 (file.drop pos).length) (hfuel : (file.drop pos).length < fuel) :
    ∃ bytes, crcLoopBytes file fuel pos leftToRead = .ok bytes ∧ bytes <+: file.drop pos ∧
      ((file.drop pos).length < 2 ^ 32 → bytes = file.drop pos) := by
  induction fuel generalizing pos leftToRead with
  | zero => exact absurd hfuel (Nat.not_lt_zero _)
  | succ fuel ih =>
    rw [crcLoopBytes]
    by_cases hzero : leftToRead = 0
    · refine ⟨[], if_pos hzero, List.nil_prefix, ?_⟩
      intro hlt
      rw [hzero, u32_of_lt hlt] at hleft
      exact (List.length_eq_zero_iff.mp hleft.symm).symm
    · have hsome : 0 < (file.drop pos).length := by
        apply Nat.pos_of_ne_zero
        intro hnone
        rw [hnone] at hleft
        exact hzero hleft
      have hbuf : ((file.drop pos).take 512).length = min 512 (file.drop pos).length :=
        List.length_take
      have hrest : (file.drop (pos + ((file.drop pos).take 512).length)).length =
          (file.drop pos).length - ((file.drop pos).take 512).length := by
        rw [← List.drop_drop, List.length_drop]
      have hchunk := List.prefix_iff_eq_append.mp (List.take_prefix 512 (file.drop pos))
      rw [List.drop_drop] at hchunk
      have hcounter : u32Sub leftToRead ((file.drop pos).take 512).length =
          u32 (file.drop (pos + ((file.drop pos).take 512).length)).length := by
        rw [hleft, hrest]
        exact u32Sub_u32 (List.length_take_le' _ _) (List.length_take_le _ _)
      obtain ⟨bytes, hrun, hprefix, hall⟩ := ih hcounter (by omega)
      refine ⟨(file.drop pos).take 512 ++ bytes, ?_, ?_, ?_⟩
      · rw [if_neg hzero]
        dsimp only
        rw [hrun]
        rfl
      · have hwhole := (List.prefix_append_right_inj ((file.drop pos).take 512)).mpr hprefix
        rwa [hchunk] at hwhole
      · intro hlt
        rw [hall (by omega), hchunk]

/-- What the check of the length in the header says about the counter. -/
theorem leftToRead_eq {file : List UInt8} {n : ℕ} (h16 : 16 ≤ file.length)
    (hlength : u32 file.length = u32 (16 + n)) : u32 n = u32 (file.drop 16).length := by
  rw [List.length_drop]
  unfold u32 at *
  omega

theorem length_of_freadStruct {file : List UInt8} {header : IndexFileHeader}
    (h : freadStruct file 0 = .ok header) : 16 ≤ file.length := by
  rw [freadStruct, readAt] at h
  by_cases hle : 0 + DiskStruct.size IndexFileHeader ≤ file.length
  · exact hle
  · rw [if_neg hle] at h
    cases h

section Reader

variable {file : List UInt8} {header : IndexFileHeader}

/-- The loop on a file that passes the check of its length. -/
theorem crcLoopBytes_file (hheader : freadStruct file 0 = .ok header)
    (hlength : u32 file.length = u32 (16 + header.doctableSize.toNat + header.indexSize.toNat))
    {fuel : ℕ} (hfuel : file.length < fuel) : ∃ bytes,
      crcLoopBytes file fuel 16 (u32 (header.doctableSize.toNat + header.indexSize.toNat)) =
        .ok bytes ∧ (file.length < 2 ^ 32 → bytes = file.drop 16) := by
  have h16 := length_of_freadStruct hheader
  rw [Nat.add_assoc] at hlength
  have hrest : (file.drop 16).length ≤ file.length := by
    rw [List.length_drop]
    exact Nat.sub_le _ _
  obtain ⟨bytes, hrun, -, hall⟩ := crcLoopBytes_spec file fuel (leftToRead_eq h16 hlength)
    (Nat.lt_of_le_of_lt hrest hfuel)
  exact ⟨bytes, hrun, fun hlt => hall (Nat.lt_of_le_of_lt hrest hlt)⟩

/-- What the constructor does with a file whose header passes the checks. -/
theorem newFileIndexReader_checked (hheader : freadStruct file 0 = .ok header)
    (hmagic : header.magicNumber = magicNumber)
    (hlength : u32 file.length = u32 (16 + header.doctableSize.toNat + header.indexSize.toNat)) :
    newFileIndexReader file false = .ok ⟨file, header⟩ ∧ ∃ bytes,
      newFileIndexReader file true =
        (if crc32Serial bytes = header.checksum then .ok ⟨file, header⟩ else .error .verify333) ∧
      (file.length < 2 ^ 32 → bytes = file.drop 16) := by
  obtain ⟨bytes, hrun, hall⟩ := crcLoopBytes_file hheader hlength (Nat.lt_succ_self file.length)
  have hcrc := crcLoop_eq_bytes file (file.length + 1) 16
    (u32 (header.doctableSize.toNat + header.indexSize.toNat)) crcInit
  rw [hrun, ok_bind] at hcrc
  have hsteps : ∀ validate, newFileIndexReader file validate =
      if validate then do
        let crc ← crcLoop file (file.length + 1) 16
          (u32 (header.doctableSize.toNat + header.indexSize.toNat)) crcInit
        if getFinalCRC crc ≠ header.checksum then throw .verify333 else return ⟨file, header⟩
      else
        return ⟨file, header⟩ := by
    intro validate
    rw [newFileIndexReader, hheader, ok_bind, if_neg (not_not.mpr hmagic),
      if_neg (not_not.mpr hlength)]
  refine ⟨hsteps false, bytes, ?_, hall⟩
  rw [hsteps, if_pos rfl, hcrc]
  by_cases hmatch : crc32Serial bytes = header.checksum
  · rw [if_pos hmatch, ← hmatch, ← getFinalCRC_foldl]
    exact if_neg (not_not.mpr rfl)
  · rw [if_neg hmatch]
    rw [← getFinalCRC_foldl] at hmatch
    exact if_pos hmatch

/-- What a file has passed that the constructor accepts. -/
theorem checked_of_newFileIndexReader {validate : Bool} {fir : FileIndexReader}
    (h : newFileIndexReader file validate = .ok fir) : ∃ header : IndexFileHeader,
      freadStruct file 0 = .ok header ∧ header.magicNumber = magicNumber ∧
      u32 file.length = u32 (16 + header.doctableSize.toNat + header.indexSize.toNat) := by
  rw [newFileIndexReader] at h
  cases hheader : (freadStruct file 0 : Except Stop IndexFileHeader) with
  | error e =>
    rw [hheader] at h
    cases h
  | ok header =>
    rw [hheader, ok_bind] at h
    by_cases hmagic : header.magicNumber ≠ magicNumber
    · rw [if_pos hmagic] at h
      cases h
    · rw [if_neg hmagic] at h
      by_cases hlength :
          u32 file.length ≠ u32 (16 + header.doctableSize.toNat + header.indexSize.toNat)
      · rw [if_pos hlength] at h
        cases h
      · exact ⟨header, rfl, not_not.mp hmagic, not_not.mp hlength⟩

end Reader

/-- On every file that passes the check of its length, the loop over the checksum ends, whatever
bound above the length of the file it is given. If the file is shorter than 2^32 bytes, it folds
in the file after its header. -/
theorem validation_covers_file (file : List UInt8) (header : IndexFileHeader)
    (hheader : freadStruct file 0 = .ok header)
    (hlength : u32 file.length = u32 (16 + header.doctableSize.toNat + header.indexSize.toNat)) :
    newFileIndexReader file true ≠ .error .diverges ∧
    ∀ fuel, file.length < fuel → ∃ bytes,
      crcLoopBytes file fuel 16 (u32 (header.doctableSize.toNat + header.indexSize.toNat)) =
        .ok bytes ∧
      crcLoop file fuel 16 (u32 (header.doctableSize.toNat + header.indexSize.toNat)) crcInit =
        .ok (bytes.foldl foldByteIntoCRC crcInit) ∧
      (file.length < 2 ^ 32 → bytes = file.drop 16) := by
  constructor
  · by_cases hmagic : header.magicNumber = magicNumber
    · obtain ⟨-, bytes, hrun, -⟩ := newFileIndexReader_checked hheader hmagic hlength
      rw [hrun]
      split
      · intro h
        cases h
      · intro h
        cases h
    · rw [newFileIndexReader, hheader, ok_bind, if_pos hmagic]
      intro h
      cases h
  · intro fuel hfuel
    obtain ⟨bytes, hrun, hall⟩ := crcLoopBytes_file hheader hlength hfuel
    refine ⟨bytes, hrun, ?_, hall⟩
    rw [crcLoop_eq_bytes, hrun, ok_bind]
    rfl

/-- The file of three words in two documents. -/
theorem validation_covers_file_letters : ∃ bytes,
    crcLoopBytes (fileImage lettersIndex lettersDocTable)
      ((fileImage lettersIndex lettersDocTable).length + 1) 16
      (u32 ((fileHeader lettersIndex lettersDocTable).doctableSize.toNat +
        (fileHeader lettersIndex lettersDocTable).indexSize.toNat)) = .ok bytes ∧
    bytes = (fileImage lettersIndex lettersDocTable).drop 16 := by
  have hcovers := validation_covers_file (fileImage lettersIndex lettersDocTable) _
    (freadStruct_fileHeader lettersIndex lettersDocTable) (by decide +kernel)
  obtain ⟨bytes, hbytes, -, hall⟩ := hcovers.2 ((fileImage lettersIndex lettersDocTable).length + 1)
    (Nat.lt_add_one _)
  exact ⟨bytes, hbytes, hall fitsFormat_letters.size⟩

/-! ## Bursts of bytes -/

/-- The sequences agree outside of `n` places from place `k` on. -/
def AgreeOutside (k n : ℕ) (a b : List UInt8) : Prop :=
  ∀ i, ¬ (k ≤ i ∧ i < k + n) → a[i]? = b[i]?

section AgreeOutside

variable {k n : ℕ} {a b : List UInt8}

theorem AgreeOutside.take (h : AgreeOutside k n a b) {m : ℕ} (hm : m ≤ k) :
    a.take m = b.take m := by
  apply List.ext_getElem?
  intro i
  rw [List.getElem?_take, List.getElem?_take]
  split
  · next hi => exact h i (fun hin => absurd hin.1 (by omega))
  · rfl

theorem AgreeOutside.drop (h : AgreeOutside k n a b) : a.drop (k + n) = b.drop (k + n) := by
  apply List.ext_getElem?
  intro i
  rw [List.getElem?_drop, List.getElem?_drop]
  exact h _ (fun hin => absurd hin.2 (by omega))

/-- What is left of the window when the first places are dropped. -/
theorem AgreeOutside.drop_below (h : AgreeOutside k n a b) {m : ℕ} (hm : m ≤ k) :
    AgreeOutside (k - m) n (a.drop m) (b.drop m) := by
  intro i hi
  rw [List.getElem?_drop, List.getElem?_drop]
  exact h _ (fun hin => hi (by omega))

end AgreeOutside

/-- A sequence, cut at the ends of a window. -/
theorem window_append (k n : ℕ) (a : List UInt8) :
    a.take k ++ (a.drop k).take n ++ a.drop (k + n) = a := by
  rw [List.append_assoc, ← List.drop_drop, List.take_append_drop, List.take_append_drop]

theorem lsbFirst_injective : Function.Injective lsbFirst := by
  intro b c heq
  have hpack := congrArg (packBits 32) heq
  rw [packBits_lsbFirst, packBits_lsbFirst] at hpack
  apply UInt8.toBitVec_inj.mp
  have htrunc := congrArg (BitVec.setWidth 8) hpack
  simpa using htrunc

/-- The bytes are told apart by their bits. -/
theorem flatMap_lsbFirst_inj {a b : List UInt8} (hlen : a.length = b.length)
    (heq : a.flatMap lsbFirst = b.flatMap lsbFirst) : a = b := by
  induction a generalizing b with
  | nil => exact (List.length_eq_zero_iff.mp hlen.symm).symm
  | cons x a ih =>
    cases b with
    | nil => cases hlen
    | cons y b =>
      rw [List.flatMap_cons, List.flatMap_cons] at heq
      obtain ⟨hhead, htail⟩ := List.append_inj heq (by rw [length_lsbFirst, length_lsbFirst])
      rw [lsbFirst_injective hhead, ih (Nat.succ.inj hlen) htail]

theorem length_flatMap_lsbFirst (a : List UInt8) : (a.flatMap lsbFirst).length = 8 * a.length := by
  induction a with
  | nil => rfl
  | cons x a ih =>
    rw [List.flatMap_cons, List.length_append, length_lsbFirst, ih, List.length_cons]
    omega

/-- Sequences that differ in at most four adjacent bytes have different checksums. -/
theorem crc32Serial_ne {a b : List UInt8} {k : ℕ} (hlen : a.length = b.length) (hne : a ≠ b)
    (h : AgreeOutside k 4 a b) : crc32Serial a ≠ crc32Serial b := by
  have hbytes : (a.drop k).take 4 ≠ (b.drop k).take 4 := by
    intro heq
    apply hne
    rw [← window_append k 4 a, ← window_append k 4 b, h.take (Nat.le_refl k), heq, h.drop]
  have hwindow : ((a.drop k).take 4).length = ((b.drop k).take 4).length := by
    rw [List.length_take, List.length_take, List.length_drop, List.length_drop, hlen]
  have hfit : (((a.drop k).take 4).flatMap lsbFirst).length ≤ 32 := by
    rw [length_flatMap_lsbFirst]
    have := List.length_take_le 4 (a.drop k)
    omega
  have hbits : (((a.drop k).take 4).flatMap lsbFirst).length =
      (((b.drop k).take 4).flatMap lsbFirst).length := by
    rw [length_flatMap_lsbFirst, length_flatMap_lsbFirst, hwindow]
  have hburst := crc_detects_bursts crc32Generator (by decide) 0xFFFFFFFF#32
    ((a.take k).flatMap lsbFirst) ((a.drop (k + 4)).flatMap lsbFirst) hbits hfit
    (fun heq => hbytes (flatMap_lsbFirst_inj hwindow heq))
  rw [← List.flatMap_append, ← List.flatMap_append, ← List.flatMap_append, window_append,
    h.take (Nat.le_refl k), h.drop, ← List.flatMap_append, window_append] at hburst
  intro heq
  apply hburst
  exact (BitVec.xor_left_inj _).mp (UInt32.ofBitVec.inj heq)

/-- Two sequences of one length that differ, but only inside of four adjacent bytes, have
different final values. So a change to at most four adjacent bytes after the header of a valid
file of less than 2^32 bytes fails the check of the checksum, and no check before it. -/
theorem short_corruptions_caught :
    (∀ earlier (a b : List UInt8) k crcA crcB, a.length = b.length → a ≠ b →
      AgreeOutside k 4 a b → CRC32.ofBytes (.afterObjects earlier) a = .ok crcA →
      CRC32.ofBytes (.afterObjects earlier) b = .ok crcB → crcA.getFinal.1 ≠ crcB.getFinal.1) ∧
    ∀ (file file' : List UInt8) k fir, newFileIndexReader file true = .ok fir →
      file.length < 2 ^ 32 → file.length = file'.length → file ≠ file' → 16 ≤ k →
      AgreeOutside k 4 file file' →
      newFileIndexReader file' false = .ok ⟨file', fir.header⟩ ∧
      newFileIndexReader file' true = .error .verify333 := by
  constructor
  · intro earlier a b k crcA crcB hlen hne h hA hB
    rw [CRC32.ofBytes_spec] at hA hB
    rw [← Except.ok.inj hA, ← Except.ok.inj hB]
    have hserial := crc32Serial_ne hlen hne h
    rw [← getFinalCRC_foldl, ← getFinalCRC_foldl] at hserial
    exact hserial
  · intro file file' k fir hfir hlt hlen hne hk h
    obtain ⟨header, hheader, hmagic, hlength⟩ := checked_of_newFileIndexReader hfir
    obtain ⟨-, bytes, hrun, hall⟩ := newFileIndexReader_checked hheader hmagic hlength
    have hheader' : freadStruct file' 0 = .ok header := by
      rw [← hheader, freadStruct, freadStruct, readAt, readAt, hlen, List.drop_zero,
        List.drop_zero]
      have htake : file.take 16 = file'.take 16 := h.take hk
      rw [show DiskStruct.size IndexFileHeader = 16 from rfl, htake]
    rw [hlen] at hlength
    obtain ⟨hquiet, bytes', hrun', hall'⟩ := newFileIndexReader_checked hheader' hmagic hlength
    rw [hfir] at hrun
    by_cases hmatch : crc32Serial bytes = header.checksum
    · rw [if_pos hmatch] at hrun
      rw [Except.ok.inj hrun]
      refine ⟨hquiet, ?_⟩
      rw [hall hlt] at hmatch
      rw [hrun', hall' (hlen ▸ hlt), if_neg]
      rw [← hmatch]
      have hdrop : file'.drop 16 ≠ file.drop 16 := by
        intro heq
        apply hne
        rw [← List.take_append_drop 16 file, ← heq, h.take hk, List.take_append_drop]
      apply (crc32Serial_ne _ hdrop.symm (h.drop_below hk)).symm
      rw [List.length_drop, List.length_drop, hlen]
    · rw [if_neg hmatch] at hrun
      cases hrun

/-- A byte of the file of the small index. -/
theorem short_corruptions_caught_small :
    newFileIndexReader ((fileImage smallIndex smallDocTable).set 30 1) true =
      .error .verify333 := by
  have hne : fileImage smallIndex smallDocTable ≠
      (fileImage smallIndex smallDocTable).set 30 1 := by
    decide +kernel
  refine (short_corruptions_caught.2 (fileImage smallIndex smallDocTable) _ 30 _
    (newFileIndexReader_fileImage fitsFormat_small true) fitsFormat_small.size
    (List.length_set).symm hne (by decide) ?_).2
  intro i hi
  exact (List.getElem?_set_ne (by omega)).symm

end MultithreadedWebServer
