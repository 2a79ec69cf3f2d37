import MultithreadedWebServer.BitSerialCrc
import MultithreadedWebServer.FileLayout

/-!
# fileindexutil.cc: the CRC32 class

The objects of the class, with the table that they share, and the bit-serial CRC-32 that they
compute. The table is built on reflected registers with shifts to the left and used with shifts
to the right, so its entries are steps of the reflected register.
-/

namespace MultithreadedWebServer

/-! ## The class -/

/-- `CRC32`. -/
structure CRC32 where
  /-- `crc_state_` -/
  crcState : UInt32
  /-- `finalized_` -/
  finalized : Bool
  deriving DecidableEq

/-- The static members of `CRC32`. -/
structure CRC32Statics where
  /-- `table_is_initialized_` -/
  tableIsInitialized : Bool
  /-- `table_` -/
  table : List UInt32
  deriving DecidableEq

/-- The static members when the process starts. -/
def CRC32Statics.atStart : CRC32Statics := ⟨false, List.replicate 256 0⟩

/-- The table that `Initialize` fills in. -/
def crc32Initialize : List UInt32 :=
  (List.range 256).map fun codes => crc32Table (UInt32.ofNat codes)

/-- The constructor of `CRC32`. -/
def newCRC32 (statics : CRC32Statics) : CRC32 × CRC32Statics :=
  let statics := if !statics.tableIsInitialized then ⟨true, crc32Initialize⟩ else statics
  (⟨crcInit, false⟩, statics)

/-- `CRC32::FoldByteIntoCRC`. -/
def CRC32.foldByte (statics : CRC32Statics) (crcobj : CRC32) (nextbyte : UInt8) :
    Except Stop CRC32 :=
  if crcobj.finalized then
    throw .verify333
  else
    match statics.table[((crcobj.crcState &&& 0xFF) ^^^ nextbyte.toUInt32).toNat]? with
    | none => throw .fault
    | some entry => return { crcobj with crcState := (crcobj.crcState >>> 8) ^^^ entry }

/-- `FoldByteIntoCRC` for one byte after the other. -/
def CRC32.foldBytes (statics : CRC32Statics) : CRC32 → List UInt8 → Except Stop CRC32
  | crcobj, [] => return crcobj
  | crcobj, b :: bytes => do
    let crcobj ← crcobj.foldByte statics b
    CRC32.foldBytes statics crcobj bytes

/-- `CRC32::GetFinalCRC`: the value, and the object after the call. -/
def CRC32.getFinal (crcobj : CRC32) : UInt32 × CRC32 :=
  let crcobj := if !crcobj.finalized then ⟨crcobj.crcState ^^^ 0xffffffff, true⟩ else crcobj
  (crcobj.crcState, crcobj)

/-- The static members after some objects were made. -/
def CRC32Statics.afterObjects : ℕ → CRC32Statics
  | 0 => .atStart
  | earlier + 1 => (newCRC32 (.afterObjects earlier)).2

/-! ## The bit-serial definition -/

/-- The generator 0x04C11DB7 in reflected form. -/
def crc32Generator : BitVec 32 := 0xEDB88320#32

theorem crc32Generator_eq : crc32Generator = (0x04C11DB7#32).reverse := by decide +kernel

/-- The bits of a byte, the least significant one first. -/
def lsbFirst (b : UInt8) : List Bool := (List.range 8).map b.toBitVec.getLsbD

/-- The bit-serial CRC-32. -/
def crc32Serial (bytes : List UInt8) : UInt32 :=
  ⟨(bytes.flatMap lsbFirst).foldl (crcBit crc32Generator) 0xFFFFFFFF#32 ^^^ 0xFFFFFFFF#32⟩

example : crc32Serial [0x31, 0x32, 0x33, 0x34, 0x35, 0x36, 0x37, 0x38, 0x39] = 0xCBF43926 := by
  decide +kernel

/-! ## Shifts -/

/-- The number of places of a shift, when it is below the width. -/
theorem toNat_shiftAmount {n : ℕ} (hn : n < 32) : (BitVec.ofNat 32 n % 32#32).toNat = n := by
  have hmod : n % 2 ^ 32 = n := Nat.mod_eq_of_lt (Nat.lt_trans hn (by decide))
  rw [BitVec.toNat_umod, BitVec.toNat_ofNat, BitVec.toNat_ofNat, hmod]
  exact Nat.mod_eq_of_lt hn

theorem toBitVec_shiftLeft_ofNat (x : UInt32) {n : ℕ} (hn : n < 32) :
    (x <<< UInt32.ofNat n).toBitVec = x.toBitVec <<< n :=
  congrArg (x.toBitVec <<< ·) (toNat_shiftAmount hn)

theorem toBitVec_shiftRight_ofNat (x : UInt32) {n : ℕ} (hn : n < 32) :
    (x >>> UInt32.ofNat n).toBitVec = x.toBitVec >>> n :=
  congrArg (x.toBitVec >>> ·) (toNat_shiftAmount hn)

/-- A test of one bit. -/
theorem and_shift_ne_zero_iff (x : UInt32) {n : ℕ} (hn : n < 32) :
    x &&& ((1 : UInt32) <<< UInt32.ofNat n) ≠ 0 ↔ x.toBitVec.getLsbD n = true := by
  have hbit : (x &&& ((1 : UInt32) <<< UInt32.ofNat n)).toBitVec =
      x.toBitVec &&& BitVec.twoPow 32 n := by
    rw [UInt32.toBitVec_and, toBitVec_shiftLeft_ofNat 1 hn]
    rfl
  rw [ne_eq, ← UInt32.toBitVec_inj, hbit, BitVec.and_twoPow]
  cases hx : x.toBitVec.getLsbD n with
  | false => simp
  | true =>
    have hpow : BitVec.twoPow 32 n ≠ 0#32 := by
      intro hzero
      have hone := congrArg (fun v => BitVec.getLsbD v n) hzero
      simp [hn] at hone
    simpa using hpow

/-! ## The table -/

/-- A bit that the loop of `CRC32Reflect` has not reached yet comes from the other end. -/
theorem getLsbD_crc32ReflectLoop (left : ℕ) (x val : UInt32) (i : ℕ) (hleft : left ≤ 32) :
    (crc32ReflectLoop left x val).toBitVec.getLsbD i =
      (val.toBitVec.getLsbD i || (decide (i < left) && x.toBitVec.getLsbD (left - 1 - i))) := by
  induction left generalizing x val with
  | zero => simp [crc32ReflectLoop]
  | succ left ih =>
    have hval : (if x &&& 1 ≠ 0 then val ||| ((1 : UInt32) <<< UInt32.ofNat left)
        else val).toBitVec.getLsbD i =
        (val.toBitVec.getLsbD i || (decide (i = left) && x.toBitVec.getLsbD 0)) := by
      have htest : x &&& 1 ≠ 0 ↔ x.toBitVec.getLsbD 0 = true :=
        and_shift_ne_zero_iff x (Nat.succ_pos 31)
      by_cases hlow : x.toBitVec.getLsbD 0 = true
      · rw [if_pos (htest.mpr hlow), UInt32.toBitVec_or,
          BitVec.getLsbD_or, toBitVec_shiftLeft_ofNat 1 hleft, hlow, Bool.and_true]
        congr 1
        exact (BitVec.getLsbD_twoPow left i).trans (by simp [Nat.lt_of_succ_le hleft, eq_comm])
      · rw [if_neg (mt htest.mp hlow), Bool.eq_false_iff.mpr hlow, Bool.and_false, Bool.or_false]
    have hshift : ∀ k, (x >>> 1).toBitVec.getLsbD k = x.toBitVec.getLsbD (k + 1) := by
      intro k
      rw [show x >>> 1 = x >>> UInt32.ofNat 1 from rfl, toBitVec_shiftRight_ofNat x (by decide),
        BitVec.getLsbD_ushiftRight, Nat.add_comm]
    rw [crc32ReflectLoop, ih _ _ (Nat.le_of_succ_le hleft), hval, hshift]
    by_cases hi : i < left
    · have hpos : left - 1 - i + 1 = left - i := by omega
      simp [hi, Nat.lt_succ_of_lt hi, Nat.ne_of_lt hi, hpos]
    · by_cases heq : i = left
      · simp [heq]
      · have hgt : ¬ i < left + 1 := by omega
        simp [hi, heq, hgt]

/-- `CRC32Reflect` of 32 bits. -/
theorem toBitVec_crc32Reflect (x : UInt32) : (crc32Reflect x 32).toBitVec = x.toBitVec.reverse := by
  apply BitVec.eq_of_getLsbD_eq
  intro i hi
  rw [crc32Reflect, getLsbD_crc32ReflectLoop 32 x 0 i (Nat.le_refl _), BitVec.getLsbD_reverse,
    BitVec.getMsbD]
  simp

/-- The shifts to the left are steps of the reflected register. -/
theorem reverse_crc32Shift (n : ℕ) (code : UInt32) :
    (crc32Shift n code).toBitVec.reverse = crcSteps crc32Generator n code.toBitVec.reverse := by
  induction n generalizing code with
  | zero => rfl
  | succ n ih =>
    have htop : (if code &&& ((1 : UInt32) <<< 31) ≠ 0 then (0x04C11DB7 : UInt32) else 0).toBitVec =
        if code.toBitVec.msb then 0x04C11DB7#32 else 0#32 := by
      rw [apply_ite UInt32.toBitVec, BitVec.msb_eq_getLsbD_last]
      exact if_congr (and_shift_ne_zero_iff code (by decide)) rfl rfl
    have hshift : (code <<< 1).toBitVec = code.toBitVec <<< 1 :=
      toBitVec_shiftLeft_ofNat code (by decide : 1 < 32)
    have hstep := reverse_crcStepLeft 0x04C11DB7#32 code.toBitVec
    rw [crcStepLeft, ← hshift] at hstep
    rw [crc32Shift, ih, crcSteps_succ, UInt32.toBitVec_xor, htop, crc32Generator_eq]
    exact congrArg _ hstep

/-- An entry of the table is eight steps of its index. -/
theorem toBitVec_crc32Table (codes : UInt32) (hcodes : codes.toNat < 256) :
    (crc32Table codes).toBitVec = crcSteps crc32Generator 8 codes.toBitVec := by
  have hstart : (crc32Reflect codes 8 <<< 24).toBitVec.reverse = codes.toBitVec := by
    have hshift : (crc32Reflect codes 8 <<< 24).toBitVec = (crc32Reflect codes 8).toBitVec <<< 24 :=
      toBitVec_shiftLeft_ofNat _ (by decide : 24 < 32)
    apply BitVec.eq_of_getLsbD_eq
    intro i hi
    rw [BitVec.getLsbD_reverse, hshift, BitVec.getMsbD_shiftLeft, BitVec.getMsbD, crc32Reflect,
      getLsbD_crc32ReflectLoop 8 codes 0 _ (by decide)]
    by_cases hlow : i < 8
    · have hpos : 8 - 1 - (32 - 1 - (i + 24)) = i := by omega
      have hin : 32 - 1 - (i + 24) < 8 := by omega
      have hfit : i + 24 < 32 := by omega
      simp only [hpos, hin, hfit]
      simp
    · -- the other bits of the index are clear
      have hclear : codes.toBitVec.getLsbD i = false :=
        Nat.testBit_lt_two_pow (Nat.lt_of_lt_of_le hcodes
          (Nat.pow_le_pow_right Nat.two_pos (Nat.le_of_not_lt hlow)))
      have hfit : ¬ i + 24 < 32 := by omega
      simp [hclear, hfit]
  rw [crc32Table, toBitVec_crc32Reflect, reverse_crc32Shift, hstart]

/-! ## A byte -/

theorem length_lsbFirst (b : UInt8) : (lsbFirst b).length = 8 := by simp [lsbFirst]

/-- The bits of a byte in the register. -/
theorem packBits_lsbFirst (b : UInt8) : packBits 32 (lsbFirst b) = b.toBitVec.setWidth 32 := by
  apply BitVec.eq_of_getLsbD_eq
  intro i hi
  rw [getLsbD_packBits, BitVec.getLsbD_setWidth, lsbFirst, List.getElem?_map]
  by_cases hlow : i < 8
  · simp [hlow]
  · simp [hlow, BitVec.getLsbD_of_ge b.toBitVec i (Nat.le_of_not_lt hlow)]

/-- The index into the table is in range. -/
theorem tableIndex_lt (crcState : UInt32) (nextbyte : UInt8) :
    ((crcState &&& 0xFF) ^^^ nextbyte.toUInt32).toNat < 256 := by
  have hlow : (crcState &&& 0xFF).toNat < 2 ^ 8 := by
    rw [UInt32.toNat_and]
    exact Nat.and_lt_two_pow _ (by decide)
  have hbyte : nextbyte.toUInt32.toNat < 2 ^ 8 := by
    rw [UInt8.toNat_toUInt32]
    exact nextbyte.toNat_lt
  rw [UInt32.toNat_xor]
  exact Nat.xor_lt_two_pow hlow hbyte

/-- A byte is folded in as its bits are, the least significant one first. -/
theorem toBitVec_foldByteIntoCRC (crcState : UInt32) (nextbyte : UInt8) :
    (foldByteIntoCRC crcState nextbyte).toBitVec =
      (lsbFirst nextbyte).foldl (crcBit crc32Generator) crcState.toBitVec := by
  have hlow : ∀ i, ((crcState &&& 0xFF) ^^^ nextbyte.toUInt32).toBitVec.getLsbD i =
      (decide (i < 8) && (crcState.toBitVec ^^^ nextbyte.toBitVec.setWidth 32).getLsbD i) := by
    intro i
    have hmask : (255#32).getLsbD i = decide (i < 8) := by
      rw [BitVec.getLsbD_ofNat, show (255 : ℕ) = 2 ^ 8 - 1 from rfl, Nat.testBit_two_pow_sub_one]
      by_cases hi : i < 8
      · simp [hi, Nat.lt_trans hi (by decide : 8 < 32)]
      · simp [hi]
    have hbits : ((crcState &&& 0xFF) ^^^ nextbyte.toUInt32).toBitVec =
        (crcState.toBitVec &&& 255#32) ^^^ nextbyte.toBitVec.setWidth 32 := rfl
    rw [hbits, BitVec.getLsbD_xor, BitVec.getLsbD_and, hmask, BitVec.getLsbD_xor]
    by_cases hi : i < 8
    · simp [hi]
    · simp [hi, BitVec.getLsbD_setWidth, BitVec.getLsbD_of_ge nextbyte.toBitVec i
        (Nat.le_of_not_lt hi)]
  have hshift : (crcState >>> 8).toBitVec = crcState.toBitVec >>> 8 :=
    toBitVec_shiftRight_ofNat crcState (by decide : 8 < 32)
  have hbyte : nextbyte.toBitVec.setWidth 32 >>> 8 = 0#32 := by
    apply BitVec.eq_of_getLsbD_eq
    intro i _
    simp [BitVec.getLsbD_setWidth]
  rw [foldByteIntoCRC, UInt32.toBitVec_xor, toBitVec_crc32Table _ (tableIndex_lt _ _), hshift,
    foldl_crcBit crc32Generator (lsbFirst nextbyte) _ (by
      rw [length_lsbFirst]
      decide), packBits_lsbFirst, length_lsbFirst]
  exact ((crcSteps_low crc32Generator 8 _ _ hlow).trans (by
    rw [BitVec.ushiftRight_xor_distrib, hbyte, BitVec.xor_zero])).symm

/-- The bytes are folded in as their bits are. -/
theorem toBitVec_foldl_foldByteIntoCRC (bytes : List UInt8) (crcState : UInt32) :
    (bytes.foldl foldByteIntoCRC crcState).toBitVec =
      (bytes.flatMap lsbFirst).foldl (crcBit crc32Generator) crcState.toBitVec := by
  induction bytes generalizing crcState with
  | nil => rfl
  | cons b bytes ih =>
    rw [List.foldl_cons, ih, toBitVec_foldByteIntoCRC, List.flatMap_cons, List.foldl_append]

theorem getFinalCRC_foldl (bytes : List UInt8) :
    getFinalCRC (bytes.foldl foldByteIntoCRC crcInit) = crc32Serial bytes := by
  apply UInt32.toBitVec_inj.mp
  rw [getFinalCRC, UInt32.toBitVec_xor, toBitVec_foldl_foldByteIntoCRC]
  rfl

/-! ## The objects -/

/-- Once an object was made, the table is there. -/
theorem newCRC32_table (earlier : ℕ) :
    (newCRC32 (.afterObjects earlier)).2 = ⟨true, crc32Initialize⟩ := by
  induction earlier with
  | zero => rfl
  | succ earlier ih =>
    rw [CRC32Statics.afterObjects, newCRC32, ih]
    rfl

/-- `FoldByteIntoCRC` on an object that is not finalized. -/
theorem CRC32.foldByte_spec (crcState : UInt32) (nextbyte : UInt8) :
    CRC32.foldByte ⟨true, crc32Initialize⟩ ⟨crcState, false⟩ nextbyte =
      .ok ⟨foldByteIntoCRC crcState nextbyte, false⟩ := by
  have hentry : crc32Initialize[((crcState &&& 0xFF) ^^^ nextbyte.toUInt32).toNat]? =
      some (crc32Table ((crcState &&& 0xFF) ^^^ nextbyte.toUInt32)) := by
    rw [crc32Initialize, List.getElem?_map, List.getElem?_range (tableIndex_lt _ _),
      Option.map_some, UInt32.ofNat_toNat]
  rw [CRC32.foldByte]
  dsimp only
  rw [hentry]
  rfl

theorem CRC32.foldBytes_spec (bytes : List UInt8) (crcState : UInt32) :
    CRC32.foldBytes ⟨true, crc32Initialize⟩ ⟨crcState, false⟩ bytes =
      .ok ⟨bytes.foldl MultithreadedWebServer.foldByteIntoCRC crcState, false⟩ := by
  induction bytes generalizing crcState with
  | nil => rfl
  | cons b bytes ih =>
    rw [CRC32.foldBytes, CRC32.foldByte_spec, ok_bind, ih]
    rfl

/-- The object that results from folding the bytes into a new one. -/
def CRC32.ofBytes (statics : CRC32Statics) (bytes : List UInt8) : Except Stop CRC32 :=
  let (crcobj, statics) := newCRC32 statics
  CRC32.foldBytes statics crcobj bytes

theorem CRC32.ofBytes_spec (earlier : ℕ) (bytes : List UInt8) :
    CRC32.ofBytes (.afterObjects earlier) bytes =
      .ok ⟨bytes.foldl MultithreadedWebServer.foldByteIntoCRC crcInit, false⟩ := by
  have htable := newCRC32_table earlier
  have hobject : (newCRC32 (.afterObjects earlier)).1 = ⟨crcInit, false⟩ := rfl
  rw [CRC32.ofBytes]
  dsimp only
  rw [htable, hobject, CRC32.foldBytes_spec]

/-- Whatever objects were made before, the class computes the standard CRC-32, and says the
same when it is asked again. -/
theorem crc32_standard (earlier : ℕ) (bytes : List UInt8) :
    ∃ crcobj, CRC32.ofBytes (.afterObjects earlier) bytes = .ok crcobj ∧
      crcobj.getFinal.1 = crc32Serial bytes ∧
      crcobj.getFinal.2.getFinal = crcobj.getFinal :=
  ⟨_, CRC32.ofBytes_spec earlier bytes, getFinalCRC_foldl bytes, rfl⟩

end MultithreadedWebServer
