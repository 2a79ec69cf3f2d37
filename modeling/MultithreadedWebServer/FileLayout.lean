import MultithreadedWebServer.ByteOrder
import MultithreadedWebServer.ByteFile
import MultithreadedWebServer.Run

/-!
# filelayout.h and fileindexutil.cc: the structs of an index file

The fields of the packed structs have the fixed-width types of the source. `DiskStruct`
is what they have in common: their memory, the two conversions of byte order, and that
what was converted and written is read and converted back.
-/

namespace MultithreadedWebServer

/-! ## Byte order -/

/-- `htonl` on a little-endian host; `ntohl` is the same function. -/
def htonl (x : UInt32) : UInt32 := UInt32.ofNat (byteSwap 4 x.toNat)

/-- `ntohl`. -/
def ntohl (x : UInt32) : UInt32 := htonl x

/-- `htons`; `ntohs` is the same function. -/
def htons (x : UInt16) : UInt16 := UInt16.ofNat (byteSwap 2 x.toNat)

/-- `ntohs`. -/
def ntohs (x : UInt16) : UInt16 := htons x

/-- The macro `ntohll`. -/
def ntohll (x : UInt64) : UInt64 :=
  ((ntohl ((x <<< 32) >>> 32).toUInt32).toUInt64 <<< 32) ||| (ntohl (x >>> 32).toUInt32).toUInt64

/-- The macro `htonll`. -/
def htonll (x : UInt64) : UInt64 := ntohll x

theorem ntohl_htonl (x : UInt32) : ntohl (htonl x) = x := by
  have hswap := byteSwap_lt 4 x.toNat
  unfold ntohl htonl
  rw [UInt32.toNat_ofNat_of_lt' hswap, byteSwap_byteSwap x.toNat_lt, UInt32.ofNat_toNat]

theorem ntohs_htons (x : UInt16) : ntohs (htons x) = x := by
  have hswap := byteSwap_lt 2 x.toNat
  unfold ntohs htons
  rw [UInt16.toNat_ofNat_of_lt' hswap, byteSwap_byteSwap x.toNat_lt, UInt16.ofNat_toNat]

/-- `ntohll` converts the two halves and swaps them. -/
theorem toNat_ntohll (x : UInt64) :
    (ntohll x).toNat = (ntohl (UInt32.ofNat (x.toNat % 2 ^ 32))).toNat * 2 ^ 32 +
      (ntohl (UInt32.ofNat (x.toNat / 2 ^ 32))).toNat := by
  have hlow : ((x <<< 32) >>> 32).toUInt32 = UInt32.ofNat (x.toNat % 2 ^ 32) := by
    apply UInt32.toNat_inj.mp
    have hmod : x.toNat % 2 ^ 32 < UInt32.size := Nat.mod_lt _ (by decide)
    rw [UInt64.toNat_toUInt32, UInt64.toNat_shiftRight, UInt64.toNat_shiftLeft,
      UInt32.toNat_ofNat_of_lt' hmod]
    have h32 : (32 : UInt64).toNat % 64 = 32 := rfl
    rw [h32, Nat.shiftLeft_eq, Nat.shiftRight_eq_div_pow]
    omega
  have hhigh : (x >>> 32).toUInt32 = UInt32.ofNat (x.toNat / 2 ^ 32) := by
    have hx := x.toNat_lt
    apply UInt32.toNat_inj.mp
    rw [UInt64.toNat_toUInt32, UInt64.toNat_shiftRight,
      UInt32.toNat_ofNat_of_lt' (Nat.div_lt_of_lt_mul hx)]
    have h32 : (32 : UInt64).toNat % 64 = 32 := rfl
    rw [h32, Nat.shiftRight_eq_div_pow]
    omega
  unfold ntohll
  rw [hlow, hhigh, UInt64.toNat_or, UInt64.toNat_shiftLeft, UInt32.toNat_toUInt64,
    UInt32.toNat_toUInt64]
  have h32 : (32 : UInt64).toNat % 64 = 32 := rfl
  have hlo := (ntohl (UInt32.ofNat (x.toNat % 2 ^ 32))).toNat_lt
  have hhi := (ntohl (UInt32.ofNat (x.toNat / 2 ^ 32))).toNat_lt
  rw [h32, Nat.mod_eq_of_lt (by rw [Nat.shiftLeft_eq]; omega), ← Nat.shiftLeft_add_eq_or_of_lt hhi,
    Nat.shiftLeft_eq]

theorem ntohll_htonll (x : UInt64) : ntohll (htonll x) = x := by
  have hx := x.toNat_lt
  apply UInt64.toNat_inj.mp
  rw [htonll, toNat_ntohll (ntohll x), toNat_ntohll x]
  have hhi := (ntohl (UInt32.ofNat (x.toNat / 2 ^ 32))).toNat_lt
  have hdiv (a b : ℕ) (hb : b < 2 ^ 32) : (a * 2 ^ 32 + b) / 2 ^ 32 = a := by omega
  rw [Nat.mul_add_mod_of_lt hhi, hdiv _ _ hhi, UInt32.ofNat_toNat, UInt32.ofNat_toNat]
  have hlow : x.toNat % 2 ^ 32 < UInt32.size := Nat.mod_lt _ (by decide)
  have hhigh : x.toNat / 2 ^ 32 < UInt32.size := Nat.div_lt_of_lt_mul hx
  have htwice (y : UInt32) : ntohl (ntohl y) = y := ntohl_htonl y
  rw [htwice, htwice, UInt32.toNat_ofNat_of_lt' hlow, UInt32.toNat_ofNat_of_lt' hhigh]
  exact Nat.div_add_mod' x.toNat (2 ^ 32)

/-! ## Structs -/

/-- A packed struct of the file. -/
class DiskStruct (α : Type) where
  /-- `sizeof` -/
  size : ℕ
  /-- the memory of a value -/
  bytes : α → List UInt8
  /-- the value with this memory -/
  ofBytes : List UInt8 → α
  /-- conversion to disk format -/
  toDiskFormat : α → α
  /-- conversion to host format -/
  toHostFormat : α → α
  /-- a struct is not empty -/
  size_pos : 0 < size
  /-- its memory has its size -/
  length_bytes : ∀ x, (bytes x).length = size
  /-- memory written is read back -/
  ofBytes_bytes : ∀ x, ofBytes (bytes x) = x
  /-- the two conversions undo each other -/
  toHostFormat_toDiskFormat : ∀ x, toHostFormat (toDiskFormat x) = x

/-- The bytes a struct has in the file. -/
def onDisk {α : Type} [DiskStruct α] (x : α) : List UInt8 :=
  DiskStruct.bytes (DiskStruct.toDiskFormat x)

@[simp] theorem length_onDisk {α : Type} [DiskStruct α] (x : α) :
    (onDisk x).length = DiskStruct.size α := DiskStruct.length_bytes _

theorem onDisk_ne_nil {α : Type} [DiskStruct α] (x : α) : onDisk x ≠ [] := by
  rw [← List.length_pos_iff, length_onDisk]
  exact DiskStruct.size_pos

/-- What a reader makes of bytes of the file. -/
def ofDisk {α : Type} [DiskStruct α] (bytes : List UInt8) : α :=
  DiskStruct.toHostFormat (DiskStruct.ofBytes bytes)

@[simp] theorem ofDisk_onDisk {α : Type} [DiskStruct α] (x : α) : ofDisk (onDisk x) = x := by
  rw [ofDisk, onDisk, DiskStruct.ofBytes_bytes, DiskStruct.toHostFormat_toDiskFormat]

/-- `MAGIC_NUMBER`. -/
def magicNumber : UInt32 := 0xCAFEF00D

/-- `IndexFileHeader`. -/
structure IndexFileHeader where
  /-- marks a complete index file -/
  magicNumber : UInt32
  /-- over everything behind the header -/
  checksum : UInt32
  /-- size of the document table -/
  doctableSize : UInt32
  /-- size of the index table -/
  indexSize : UInt32
  deriving DecidableEq

instance : DiskStruct IndexFileHeader where
  size := 16
  bytes h := leBytes 4 h.magicNumber.toNat ++ (leBytes 4 h.checksum.toNat ++
    (leBytes 4 h.doctableSize.toNat ++ (leBytes 4 h.indexSize.toNat ++ [])))
  ofBytes b := ⟨UInt32.ofNat (field 0 4 b), UInt32.ofNat (field 4 4 b),
    UInt32.ofNat (field 8 4 b), UInt32.ofNat (field 12 4 b)⟩
  toDiskFormat h := ⟨htonl h.magicNumber, htonl h.checksum, htonl h.doctableSize,
    htonl h.indexSize⟩
  toHostFormat h := ⟨ntohl h.magicNumber, ntohl h.checksum, ntohl h.doctableSize,
    ntohl h.indexSize⟩
  size_pos := by decide
  length_bytes h := by simp
  ofBytes_bytes h := by simp only [field_uInt32, field_skip, Nat.reduceLeDiff, Nat.reduceSub]
  toHostFormat_toDiskFormat h := by simp only [ntohl_htonl]

/-- `BucketListHeader`. -/
structure BucketListHeader where
  /-- number of buckets of the table -/
  numBuckets : UInt32
  deriving DecidableEq

instance : DiskStruct BucketListHeader where
  size := 4
  bytes h := leBytes 4 h.numBuckets.toNat ++ []
  ofBytes b := ⟨UInt32.ofNat (field 0 4 b)⟩
  toDiskFormat h := ⟨htonl h.numBuckets⟩
  toHostFormat h := ⟨ntohl h.numBuckets⟩
  size_pos := by decide
  length_bytes h := by simp
  ofBytes_bytes h := by simp only [field_uInt32]
  toHostFormat_toDiskFormat h := by simp only [ntohl_htonl]

/-- `bucket_rec`. -/
structure BucketRec where
  /-- number of elements of the chain -/
  chainLen : UInt32
  /-- where the bucket is -/
  bucketPosition : UInt32
  deriving DecidableEq

instance : DiskStruct BucketRec where
  size := 8
  bytes r := leBytes 4 r.chainLen.toNat ++ (leBytes 4 r.bucketPosition.toNat ++ [])
  ofBytes b := ⟨UInt32.ofNat (field 0 4 b), UInt32.ofNat (field 4 4 b)⟩
  toDiskFormat r := ⟨htonl r.chainLen, htonl r.bucketPosition⟩
  toHostFormat r := ⟨ntohl r.chainLen, ntohl r.bucketPosition⟩
  size_pos := by decide
  length_bytes r := by simp
  ofBytes_bytes r := by simp only [field_uInt32, field_skip, Nat.reduceLeDiff, Nat.reduceSub]
  toHostFormat_toDiskFormat r := by simp only [ntohl_htonl]

/-- `element_position_rec`. -/
structure ElementPositionRec where
  /-- where the element is -/
  elementPosition : UInt32
  deriving DecidableEq

instance : DiskStruct ElementPositionRec where
  size := 4
  bytes r := leBytes 4 r.elementPosition.toNat ++ []
  ofBytes b := ⟨UInt32.ofNat (field 0 4 b)⟩
  toDiskFormat r := ⟨htonl r.elementPosition⟩
  toHostFormat r := ⟨ntohl r.elementPosition⟩
  size_pos := by decide
  length_bytes r := by simp
  ofBytes_bytes r := by simp only [field_uInt32]
  toHostFormat_toDiskFormat r := by simp only [ntohl_htonl]

/-- `doctable_element_header`. -/
structure DoctableElementHeader where
  /-- the document -/
  docid : UInt64
  /-- length of its name -/
  filenameLen : UInt16
  deriving DecidableEq

instance : DiskStruct DoctableElementHeader where
  size := 10
  bytes h := leBytes 8 h.docid.toNat ++ (leBytes 2 h.filenameLen.toNat ++ [])
  ofBytes b := ⟨UInt64.ofNat (field 0 8 b), UInt16.ofNat (field 8 2 b)⟩
  toDiskFormat h := ⟨htonll h.docid, htons h.filenameLen⟩
  toHostFormat h := ⟨ntohll h.docid, ntohs h.filenameLen⟩
  size_pos := by decide
  length_bytes h := by simp
  ofBytes_bytes h := by
    simp only [field_uInt64, field_uInt16, field_skip, Nat.reduceLeDiff, Nat.reduceSub]
  toHostFormat_toDiskFormat h := by simp only [ntohll_htonll, ntohs_htons]

/-- `worddocset_header`. -/
structure WorddocsetHeader where
  /-- length of the word -/
  wordLen : UInt16
  /-- size of the nested table -/
  doctableLen : UInt32
  deriving DecidableEq

instance : DiskStruct WorddocsetHeader where
  size := 6
  bytes h := leBytes 2 h.wordLen.toNat ++ (leBytes 4 h.doctableLen.toNat ++ [])
  ofBytes b := ⟨UInt16.ofNat (field 0 2 b), UInt32.ofNat (field 2 4 b)⟩
  toDiskFormat h := ⟨htons h.wordLen, htonl h.doctableLen⟩
  toHostFormat h := ⟨ntohs h.wordLen, ntohl h.doctableLen⟩
  size_pos := by decide
  length_bytes h := by simp
  ofBytes_bytes h := by
    simp only [field_uInt16, field_uInt32, field_skip, Nat.reduceLeDiff, Nat.reduceSub]
  toHostFormat_toDiskFormat h := by simp only [ntohs_htons, ntohl_htonl]

/-- `docid_element_header`. -/
structure DocidElementHeader where
  /-- the document -/
  docid : UInt64
  /-- length of the list of positions -/
  numPositions : UInt32
  deriving DecidableEq

instance : DiskStruct DocidElementHeader where
  size := 12
  bytes h := leBytes 8 h.docid.toNat ++ (leBytes 4 h.numPositions.toNat ++ [])
  ofBytes b := ⟨UInt64.ofNat (field 0 8 b), UInt32.ofNat (field 8 4 b)⟩
  toDiskFormat h := ⟨htonll h.docid, htonl h.numPositions⟩
  toHostFormat h := ⟨ntohll h.docid, ntohl h.numPositions⟩
  size_pos := by decide
  length_bytes h := by simp
  ofBytes_bytes h := by
    simp only [field_uInt64, field_uInt32, field_skip, Nat.reduceLeDiff, Nat.reduceSub]
  toHostFormat_toDiskFormat h := by simp only [ntohll_htonll, ntohl_htonl]

/-- `docid_element_position`. -/
structure DocidElementPosition where
  /-- the position -/
  position : UInt32
  deriving DecidableEq

instance : DiskStruct DocidElementPosition where
  size := 4
  bytes e := leBytes 4 e.position.toNat ++ []
  ofBytes b := ⟨UInt32.ofNat (field 0 4 b)⟩
  toDiskFormat e := ⟨htonl e.position⟩
  toHostFormat e := ⟨ntohl e.position⟩
  size_pos := by decide
  length_bytes e := by simp
  ofBytes_bytes e := by simp only [field_uInt32]
  toHostFormat_toDiskFormat e := by simp only [ntohl_htonl]

/-! ## CRC32 -/

/-- The loop of `CRC32Reflect`, with the positions that are left. -/
def crc32ReflectLoop : ℕ → UInt32 → UInt32 → UInt32
  | 0, _, val => val
  | left + 1, reflectme, val =>
    let val := if reflectme &&& 1 ≠ 0 then val ||| ((1 : UInt32) <<< UInt32.ofNat left) else val
    crc32ReflectLoop left (reflectme >>> 1) val

/-- `CRC32Reflect`. -/
def crc32Reflect (reflectme : UInt32) (c : ℕ) : UInt32 := crc32ReflectLoop c reflectme 0

/-- The inner loop of `Initialize`. -/
def crc32Shift : ℕ → UInt32 → UInt32
  | 0, code => code
  | left + 1, code =>
    let polynomial : UInt32 := 0x04C11DB7
    crc32Shift left
      ((code <<< 1) ^^^ (if code &&& ((1 : UInt32) <<< 31) ≠ 0 then polynomial else 0))

/-- An entry of `table_`, as `Initialize` computes it. -/
def crc32Table (codes : UInt32) : UInt32 :=
  crc32Reflect (crc32Shift 8 (crc32Reflect codes 8 <<< 24)) 32

/-- `FoldByteIntoCRC`. -/
def foldByteIntoCRC (crcState : UInt32) (nextbyte : UInt8) : UInt32 :=
  (crcState >>> 8) ^^^ crc32Table ((crcState &&& 0xFF) ^^^ nextbyte.toUInt32)

/-- The state of a new `CRC32`. -/
def crcInit : UInt32 := 0xFFFFFFFF

/-- `GetFinalCRC`. -/
def getFinalCRC (crcState : UInt32) : UInt32 := crcState ^^^ 0xFFFFFFFF

end MultithreadedWebServer
