import MultithreadedWebServer.DocTable
import MultithreadedWebServer.FileLayout

/-!
# fileindexwriter.cc: writing an index file

The state of the writer is an `IndexFile`: what is in the file, the position of the
stream, whether the coming input and output calls succeed, and the verdicts of the
coming `malloc` calls (iterators are allocated). A call that fails leaves the file as it
is. Offsets are reduced by `u32` where the source keeps them in 32 bits.
-/

namespace MultithreadedWebServer

/-- The file being written. -/
structure IndexFile where
  /-- its name is in the directory -/
  linked : Bool
  /-- what is in the file -/
  content : List UInt8
  /-- the position of the stream -/
  pos : ℕ
  /-- the verdicts of the coming calls; past the end every call succeeds -/
  verdicts : List Bool
  /-- the verdicts of the coming `malloc` calls -/
  mallocs : Schedule
  deriving DecidableEq

/-! ## Calls of the C library -/

/-- Whether the next call succeeds. -/
def ioVerdict : Run IndexFile Bool := fun f =>
  .ok (f.verdicts.headD true, { f with verdicts := f.verdicts.tail })

/-- `fopen` with `"wb+"`: the file is created, or emptied. -/
def fopen : Run IndexFile Bool := do
  if ← ioVerdict then
    let f ← Run.get
    Run.set { f with linked := true, content := [], pos := 0 }
    return true
  else
    return false

/-- `unlink`. -/
def unlink : Run IndexFile Unit := do
  let f ← Run.get
  Run.set { f with linked := false }

/-- `fseek(f, offset, SEEK_SET)`. -/
def fseek (offset : ℕ) : Run IndexFile Bool := do
  if ← ioVerdict then
    let f ← Run.get
    Run.set { f with pos := offset }
    return true
  else
    return false

/-- `fwrite(ptr, size, 1, f)`, of the `size` bytes at `ptr`. -/
def fwrite (bytes : List UInt8) : Run IndexFile ℕ := do
  if bytes = [] then
    return 0
  else if ← ioVerdict then
    let f ← Run.get
    Run.set { f with content := writeAt f.content f.pos bytes, pos := f.pos + bytes.length }
    return 1
  else
    return 0

/-- `fread(&cur_byte, 1, 1, f)`; `none` unless the result is 1. -/
def freadByte : Run IndexFile (Option UInt8) := do
  if ← ioVerdict then
    let f ← Run.get
    match f.content[f.pos]? with
    | none => return none
    | some curByte =>
      Run.set { f with pos := f.pos + 1 }
      return some curByte
  else
    return none

/-- A call of a function that only allocates. -/
def withMallocs {α : Type} (m : Run Schedule α) : Run IndexFile α :=
  Run.zoom IndexFile.mallocs (fun mallocs f => { f with mallocs := mallocs }) m

/-! ## Tables -/

/-- `write_element_fn`. -/
abbrev WriteElementFn (V : Type) : Type := ℕ → HTKeyValue V → Run IndexFile ℕ

section Table

variable {V : Type}

/-- `WriteBucketRecord`. -/
def writeBucketRecord (li : LinkedList (HTKeyValue V)) (brOffset bOffset : ℕ) :
    Run IndexFile ℕ := do
  let br : BucketRec := ⟨UInt32.ofNat (numElementsInLinkedList li), UInt32.ofNat bOffset⟩
  if ← fseek brOffset then
    if (← fwrite (onDisk br)) ≠ 1 then return 0 else return 8
  else
    return 0

/-- The loop of `WriteBucket`, with the number of elements that are left. -/
def writeElements (fn : WriteElementFn V) (li : LinkedList (HTKeyValue V)) (offset : ℕ) :
    ℕ → ℕ → LLIter → ℕ → ℕ → Run IndexFile ℕ
  | 0, _, _, bucketlen, _ => return bucketlen
  | left + 1, j, it, bucketlen, nextelpos => do
    let header : ElementPositionRec := ⟨UInt32.ofNat nextelpos⟩
    if ← fseek (offset + j * 4) then
      if (← fwrite (onDisk header)) ≠ 1 then
        return 0
      else
        let kv ← llIteratorGetPayload li it
        let ellen ← fn nextelpos kv
        Run.verify333 (0 < ellen)
        let (_, it) ← llIteratorNext li it
        writeElements fn li offset left (j + 1) it (u32 (bucketlen + ellen))
          (u32 (nextelpos + ellen))
    else
      return 0

/-- `WriteBucket`. -/
def writeBucket (fn : WriteElementFn V) (li : LinkedList (HTKeyValue V)) (offset : ℕ) :
    Run IndexFile ℕ := do
  let chainlen := numElementsInLinkedList li
  let bucketlen := u32 (4 * chainlen)
  let nextelpos := u32 (offset + bucketlen)
  if 0 < chainlen then
    match ← withMallocs (llMakeIterator li 0) with
    | none => Run.stop .verify333
    | some it => writeElements fn li offset chainlen 0 it bucketlen nextelpos
  else
    return bucketlen

/-- The loop of `WriteHashTable`, with the number of buckets that are left. -/
def writeBuckets (fn : WriteElementFn V) (ht : HashTable V) :
    ℕ → ℕ → ℕ → ℕ → Run IndexFile ℕ
  | 0, _, _, nextBucketOffset => return nextBucketOffset
  | left + 1, i, nextBucketRecOffset, nextBucketOffset => do
    let li ← bucketAt ht i
    let res ← writeBucketRecord li nextBucketRecOffset nextBucketOffset
    Run.verify333 (res ≠ 0)
    let nextBucketRecOffset := u32 (nextBucketRecOffset + res)
    if 0 < numElementsInLinkedList li then
      let res ← writeBucket fn li nextBucketOffset
      Run.verify333 (res ≠ 0)
      writeBuckets fn ht left (i + 1) nextBucketRecOffset (u32 (nextBucketOffset + res))
    else
      writeBuckets fn ht left (i + 1) nextBucketRecOffset nextBucketOffset

/-- `WriteHashTable`. -/
def writeHashTable (ht : HashTable V) (offset : ℕ) (fn : WriteElementFn V) :
    Run IndexFile ℕ := do
  let nextBucketRecOffset := u32 (offset + 4)
  let header : BucketListHeader := ⟨UInt32.ofNat ht.numBuckets⟩
  if ← fseek offset then
    if (← fwrite (onDisk header)) ≠ 1 then
      return 0
    else
      let nextBucketOffset := u32 (nextBucketRecOffset + ht.numBuckets * 8)
      let nextBucketOffset ← writeBuckets fn ht ht.numBuckets 0 nextBucketRecOffset
        nextBucketOffset
      return u32Sub nextBucketOffset offset
  else
    return 0

end Table

/-! ## Elements -/

/-- `WriteDocidDocnameFn`. -/
def writeDocidDocnameFn : WriteElementFn CString := fun offset kv => do
  let slen := UInt16.ofNat kv.value.bytes.length
  let header : DoctableElementHeader := ⟨kv.key, slen⟩
  if ← fseek offset then
    if (← fwrite (onDisk header)) ≠ 1 then
      return 0
    else if (← fwrite (kv.value.bytes.take slen.toNat)) ≠ 1 then
      return 0
    else
      return 10 + slen.toNat
  else
    return 0

/-- `WriteDocTable`. -/
def writeDocTable (dt : DocTable) (offset : ℕ) : Run IndexFile ℕ :=
  writeHashTable (dtGetDocidTable dt) offset writeDocidDocnameFn

/-- The loop of `WriteDocPositionListFn`; the result of its `fwrite` is not looked at. The payload
is 8 bytes long and is stored through a pointer to a struct of 4. The struct keeps its low half;
what is stored behind the struct is left out. -/
def writePositions (positions : LinkedList UInt64) : ℕ → LLIter → Run IndexFile Unit
  | 0, _ => return ()
  | left + 1, it => do
    let payload ← llIteratorGetPayload positions it
    let position : DocidElementPosition := ⟨payload.toUInt32⟩
    let _ ← fwrite (onDisk position)
    let (_, it) ← llIteratorNext positions it
    writePositions positions left it

/-- `WriteDocPositionListFn`. -/
def writeDocPositionListFn : WriteElementFn (LinkedList UInt64) := fun offset kv => do
  let numPos := numElementsInLinkedList kv.value
  let header : DocidElementHeader := ⟨kv.key, UInt32.ofNat numPos⟩
  if ← fseek offset then
    if (← fwrite (onDisk header)) ≠ 1 then
      return 0
    else
      match ← withMallocs (llMakeIterator kv.value 0) with
      | none => Run.stop .verify333
      | some it =>
        writePositions kv.value numPos it
        return u32 (12 + numPos * 4)
  else
    return 0

/-- `WriteWordDocSetFn`; the values of the index point to records. -/
def writeWordDocSetFn (records : Arena WordDocSet) : WriteElementFn Addr := fun offset kv => do
  let wds ← deref records (some kv.value)
  let wordlen := UInt16.ofNat wds.word.bytes.length
  Run.verify333 (0 < wordlen)
  let htlen ← writeHashTable wds.docIDs (u32 (offset + 6 + wordlen.toNat)) writeDocPositionListFn
  let header : WorddocsetHeader := ⟨wordlen, UInt32.ofNat htlen⟩
  if ← fseek offset then
    if (← fwrite (onDisk header)) ≠ 1 then
      return 0
    else if (← fwrite (wds.word.bytes.take wordlen.toNat)) ≠ 1 then
      return 0
    else
      return u32 (6 + wordlen.toNat + htlen)
  else
    return 0

/-- `WriteMemIndex`. -/
def writeMemIndex (mi : MemIndex) (offset : ℕ) : Run IndexFile ℕ :=
  writeHashTable mi.table offset (writeWordDocSetFn mi.records)

/-! ## The file -/

/-- The loop of `WriteHeader`, with the number of bytes that are left. -/
def foldFile : ℕ → UInt32 → Run IndexFile UInt32
  | 0, crc => return crc
  | left + 1, crc => do
    match ← freadByte with
    | none => Run.stop .verify333
    | some curByte => foldFile left (foldByteIntoCRC crc curByte)

/-- `WriteHeader`. -/
def writeHeader (doctSize memidxSize : ℕ) : Run IndexFile ℕ := do
  let cslen := u32 (doctSize + memidxSize)
  if ← fseek 16 then
    let crc ← foldFile cslen crcInit
    let header : IndexFileHeader :=
      ⟨magicNumber, getFinalCRC crc, UInt32.ofNat doctSize, UInt32.ofNat memidxSize⟩
    if ← fseek 0 then
      if (← fwrite (onDisk header)) ≠ 1 then
        return 0
      else
        -- `fsync`
        Run.verify333 (← ioVerdict)
        return 16
    else
      return 0
  else
    return 0

/-- `WriteIndex`; the second test looks at `dtres` again. -/
def writeIndex (mi : MemIndex) (dt : DocTable) : Run IndexFile ℕ := do
  if ← fopen then
    let dtres ← writeDocTable dt 16
    if dtres = 0 then
      unlink
      return 0
    else
      let filesize := dtres
      let mires ← writeMemIndex mi (u32 (16 + filesize))
      if dtres = 0 then
        unlink
        return 0
      else
        let filesize := u32 (filesize + mires)
        let hdres ← writeHeader dtres mires
        if hdres ≠ 16 then
          unlink
          return 0
        else
          return u32 (filesize + hdres)
  else
    return 0

end MultithreadedWebServer
