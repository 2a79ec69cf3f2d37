import MultithreadedWebServer.Calls
import MultithreadedWebServer.IndexWriter

/-!
# The calls of the index writer

The functions of `IndexWriter` again, as programs that call the C library: the same
bodies, with each call left open. `run_writeIndex` says that with the calls of
`IndexWriter` they are the functions of `IndexWriter`. What is gained is the file that a
process leaves behind when it stops, and the sequence of its writes.
-/

namespace MultithreadedWebServer

/-- What the writer calls. -/
inductive FileCall where
  /-- `fopen` with `"wb+"` -/
  | fopen
  /-- `unlink` -/
  | unlink
  /-- `fseek(f, offset, SEEK_SET)` -/
  | fseek (offset : ℕ)
  /-- `fwrite` of some bytes -/
  | fwrite (bytes : List UInt8)
  /-- `fread` of one byte -/
  | fread
  /-- `fsync` -/
  | fsync
  /-- a function that allocates an iterator -/
  | alloc (m : Run Schedule (Option LLIter))

/-- What a call returns. -/
@[reducible] def FileCall.Answer : FileCall → Type
  | fopen => Bool
  | unlink => Unit
  | fseek _ => Bool
  | fwrite _ => ℕ
  | fread => Option UInt8
  | fsync => Bool
  | alloc _ => Option LLIter

/-- What a call does. -/
def perform : (c : FileCall) → Run IndexFile c.Answer
  | .fopen => fopen
  | .unlink => unlink
  | .fseek offset => fseek offset
  | .fwrite bytes => fwrite bytes
  | .fread => freadByte
  | .fsync => ioVerdict
  | .alloc m => withMallocs m

/-- A program that writes a file. -/
abbrev WriterCalls (α : Type) : Type := Calls FileCall FileCall.Answer α

namespace WriterCalls

/-- `fopen`. -/
def fopen : WriterCalls Bool := .make FileCall.fopen

/-- `unlink`. -/
def unlink : WriterCalls Unit := .make FileCall.unlink

/-- `fseek`. -/
def fseek (offset : ℕ) : WriterCalls Bool := .make (FileCall.fseek offset)

/-- `fwrite`. -/
def fwrite (bytes : List UInt8) : WriterCalls ℕ := .make (FileCall.fwrite bytes)

/-- `fread`. -/
def freadByte : WriterCalls (Option UInt8) := .make FileCall.fread

/-- `fsync`. -/
def fsync : WriterCalls Bool := .make FileCall.fsync

/-- A function that allocates an iterator. -/
def withMallocs (m : Run Schedule (Option LLIter)) : WriterCalls (Option LLIter) :=
  .make (FileCall.alloc m)

/-! ## Tables -/

/-- `write_element_fn`. -/
abbrev WriteElementFn (V : Type) : Type := ℕ → HTKeyValue V → WriterCalls ℕ

section Table

variable {V : Type}

/-- `WriteBucketRecord`. -/
def writeBucketRecord (li : LinkedList (HTKeyValue V)) (brOffset bOffset : ℕ) :
    WriterCalls ℕ := do
  let br : BucketRec := ⟨UInt32.ofNat (numElementsInLinkedList li), UInt32.ofNat bOffset⟩
  if ← fseek brOffset then
    if (← fwrite (onDisk br)) ≠ 1 then return 0 else return 8
  else
    return 0

/-- The loop of `WriteBucket`, with the number of elements that are left. -/
def writeElements (fn : WriteElementFn V) (li : LinkedList (HTKeyValue V)) (offset : ℕ) :
    ℕ → ℕ → LLIter → ℕ → ℕ → WriterCalls ℕ
  | 0, _, _, bucketlen, _ => return bucketlen
  | left + 1, j, it, bucketlen, nextelpos => do
    let header : ElementPositionRec := ⟨UInt32.ofNat nextelpos⟩
    if ← fseek (offset + j * 4) then
      if (← fwrite (onDisk header)) ≠ 1 then
        return 0
      else
        let kv ← .compute (llIteratorGetPayload li it)
        let ellen ← fn nextelpos kv
        Calls.verify333 (0 < ellen)
        let (_, it) ← .compute (llIteratorNext li it)
        writeElements fn li offset left (j + 1) it (u32 (bucketlen + ellen))
          (u32 (nextelpos + ellen))
    else
      return 0

/-- `WriteBucket`. -/
def writeBucket (fn : WriteElementFn V) (li : LinkedList (HTKeyValue V)) (offset : ℕ) :
    WriterCalls ℕ := do
  let chainlen := numElementsInLinkedList li
  let bucketlen := u32 (4 * chainlen)
  let nextelpos := u32 (offset + bucketlen)
  if 0 < chainlen then
    match ← withMallocs (llMakeIterator li 0) with
    | none => .stop .verify333
    | some it => writeElements fn li offset chainlen 0 it bucketlen nextelpos
  else
    return bucketlen

/-- The loop of `WriteHashTable`, with the number of buckets that are left. -/
def writeBuckets (fn : WriteElementFn V) (ht : HashTable V) :
    ℕ → ℕ → ℕ → ℕ → WriterCalls ℕ
  | 0, _, _, nextBucketOffset => return nextBucketOffset
  | left + 1, i, nextBucketRecOffset, nextBucketOffset => do
    let li ← .compute (bucketAt ht i)
    let res ← writeBucketRecord li nextBucketRecOffset nextBucketOffset
    Calls.verify333 (res ≠ 0)
    let nextBucketRecOffset := u32 (nextBucketRecOffset + res)
    if 0 < numElementsInLinkedList li then
      let res ← writeBucket fn li nextBucketOffset
      Calls.verify333 (res ≠ 0)
      writeBuckets fn ht left (i + 1) nextBucketRecOffset (u32 (nextBucketOffset + res))
    else
      writeBuckets fn ht left (i + 1) nextBucketRecOffset nextBucketOffset

/-- `WriteHashTable`. -/
def writeHashTable (ht : HashTable V) (offset : ℕ) (fn : WriteElementFn V) :
    WriterCalls ℕ := do
  let nextBucketRecOffset := u32 (offset + 4)
  let header : BucketListHeader := ⟨UInt32.ofNat ht.numBuckets⟩
  if ← fseek offset then
    if (← fwrite (onDisk header)) ≠ 1 then
      return 0
    else
      let nextBucketOffset := u32 (nextBucketRecOffset + ht.numBuckets * 8)
      let nextBucketOffset ← writeBuckets fn ht ht.numBuckets 0 nextBucketRecOffset
        nextBucketOffset
      return u32Sub nextBucketOffset offset
  else
    return 0

end Table

/-! ## Elements -/

/-- `WriteDocidDocnameFn`. -/
def writeDocidDocnameFn : WriteElementFn CString := fun offset kv => do
  let slen := UInt16.ofNat kv.value.bytes.length
  let header : DoctableElementHeader := ⟨kv.key, slen⟩
  if ← fseek offset then
    if (← fwrite (onDisk header)) ≠ 1 then
      return 0
    else if (← fwrite (kv.value.bytes.take slen.toNat)) ≠ 1 then
      return 0
    else
      return 10 + slen.toNat
  else
    return 0

/-- `WriteDocTable`. -/
def writeDocTable (dt : DocTable) (offset : ℕ) : WriterCalls ℕ :=
  writeHashTable (dtGetDocidTable dt) offset writeDocidDocnameFn

/-- The loop of `WriteDocPositionListFn`; the result of its `fwrite` is not looked at. The struct
keeps the low half of the payload. -/
def writePositions (positions : LinkedList UInt64) : ℕ → LLIter → WriterCalls Unit
  | 0, _ => return ()
  | left + 1, it => do
    let payload ← .compute (llIteratorGetPayload positions it)
    let position : DocidElementPosition := ⟨payload.toUInt32⟩
    let _ ← fwrite (onDisk position)
    let (_, it) ← .compute (llIteratorNext positions it)
    writePositions positions left it

/-- `WriteDocPositionListFn`. -/
def writeDocPositionListFn : WriteElementFn (LinkedList UInt64) := fun offset kv => do
  let numPos := numElementsInLinkedList kv.value
  let header : DocidElementHeader := ⟨kv.key, UInt32.ofNat numPos⟩
  if ← fseek offset then
    if (← fwrite (onDisk header)) ≠ 1 then
      return 0
    else
      match ← withMallocs (llMakeIterator kv.value 0) with
      | none => .stop .verify333
      | some it =>
        writePositions kv.value numPos it
        return u32 (12 + numPos * 4)
  else
    return 0

/-- `WriteWordDocSetFn`. -/
def writeWordDocSetFn (records : Arena WordDocSet) : WriteElementFn Addr := fun offset kv => do
  let wds ← .compute (deref records (some kv.value))
  let wordlen := UInt16.ofNat wds.word.bytes.length
  Calls.verify333 (0 < wordlen)
  let htlen ← writeHashTable wds.docIDs (u32 (offset + 6 + wordlen.toNat)) writeDocPositionListFn
  let header : WorddocsetHeader := ⟨wordlen, UInt32.ofNat htlen⟩
  if ← fseek offset then
    if (← fwrite (onDisk header)) ≠ 1 then
      return 0
    else if (← fwrite (wds.word.bytes.take wordlen.toNat)) ≠ 1 then
      return 0
    else
      return u32 (6 + wordlen.toNat + htlen)
  else
    return 0

/-- `WriteMemIndex`. -/
def writeMemIndex (mi : MemIndex) (offset : ℕ) : WriterCalls ℕ :=
  writeHashTable mi.table offset (writeWordDocSetFn mi.records)

/-! ## The file -/

/-- The loop of `WriteHeader`, with the number of bytes that are left. -/
def foldFile : ℕ → UInt32 → WriterCalls UInt32
  | 0, crc => return crc
  | left + 1, crc => do
    match ← freadByte with
    | none => .stop .verify333
    | some curByte => foldFile left (foldByteIntoCRC crc curByte)

/-- `WriteHeader`. -/
def writeHeader (doctSize memidxSize : ℕ) : WriterCalls ℕ := do
  let cslen := u32 (doctSize + memidxSize)
  if ← fseek 16 then
    let crc ← foldFile cslen crcInit
    let header : IndexFileHeader :=
      ⟨magicNumber, getFinalCRC crc, UInt32.ofNat doctSize, UInt32.ofNat memidxSize⟩
    if ← fseek 0 then
      if (← fwrite (onDisk header)) ≠ 1 then
        return 0
      else
        Calls.verify333 (← fsync)
        return 16
    else
      return 0
  else
    return 0

/-- `WriteIndex`. -/
def writeIndex (mi : MemIndex) (dt : DocTable) : WriterCalls ℕ := do
  if ← fopen then
    let dtres ← writeDocTable dt 16
    if dtres = 0 then
      unlink
      return 0
    else
      let filesize := dtres
      let mires ← writeMemIndex mi (u32 (16 + filesize))
      if dtres = 0 then
        unlink
        return 0
      else
        let filesize := u32 (filesize + mires)
        let hdres ← writeHeader dtres mires
        if hdres ≠ 16 then
          unlink
          return 0
        else
          return u32 (filesize + hdres)
  else
    return 0

/-! ## The functions of `IndexWriter` -/

section Run

theorem run_fopen : Calls.run perform fopen = MultithreadedWebServer.fopen :=
  Calls.run_make perform FileCall.fopen

theorem run_unlink : Calls.run perform unlink = MultithreadedWebServer.unlink :=
  Calls.run_make perform FileCall.unlink

theorem run_fseek (offset : ℕ) :
    Calls.run perform (fseek offset) = MultithreadedWebServer.fseek offset :=
  Calls.run_make perform (FileCall.fseek offset)

theorem run_fwrite (bytes : List UInt8) :
    Calls.run perform (fwrite bytes) = MultithreadedWebServer.fwrite bytes :=
  Calls.run_make perform (FileCall.fwrite bytes)

theorem run_freadByte : Calls.run perform freadByte = MultithreadedWebServer.freadByte :=
  Calls.run_make perform FileCall.fread

theorem run_fsync : Calls.run perform fsync = ioVerdict :=
  Calls.run_make perform FileCall.fsync

theorem run_withMallocs (m : Run Schedule (Option LLIter)) :
    Calls.run perform (withMallocs m) = MultithreadedWebServer.withMallocs m :=
  Calls.run_make perform (FileCall.alloc m)

/-- Following a pointer does not look at the state. -/
theorem run_deref {β : Type} (m : Arena β) (p : Ptr) :
    Calls.run perform (.compute (deref m p)) = deref m p := by
  unfold deref
  cases p.bind m.read <;> rfl

theorem run_bucketAt {V : Type} (ht : HashTable V) (i : ℕ) :
    Calls.run perform (.compute (bucketAt ht i)) = bucketAt ht i := by
  unfold bucketAt
  cases ht.buckets[i]? <;> rfl

theorem run_getPayload {α : Type} (li : LinkedList α) (it : LLIter) :
    Calls.run perform (.compute (llIteratorGetPayload li it)) = llIteratorGetPayload li it := by
  obtain ⟨node⟩ := it
  cases node with
  | none => rfl
  | some a =>
    rcases h : li.nodes.read a with _ | n
    · have hnone (σ : Type) : (deref li.nodes (some a) : Run σ _) = Run.stop .fault := by
        rw [deref, Option.bind_some, h]
      unfold llIteratorGetPayload
      rw [hnone, hnone]
      rfl
    · unfold llIteratorGetPayload
      rw [deref_some h, deref_some h]
      rfl

theorem run_iteratorNext {α : Type} (li : LinkedList α) (it : LLIter) :
    Calls.run perform (.compute (llIteratorNext li it)) = llIteratorNext li it := by
  obtain ⟨node⟩ := it
  cases node with
  | none => rfl
  | some a =>
    rcases h : li.nodes.read a with _ | n
    · have hnone (σ : Type) : (deref li.nodes (some a) : Run σ _) = Run.stop .fault := by
        rw [deref, Option.bind_some, h]
      unfold llIteratorNext llIteratorHasNext
      rw [hnone, hnone]
      rfl
    · unfold llIteratorNext llIteratorHasNext
      rw [deref_some h, deref_some h]
      obtain ⟨_, next, _⟩ := n
      cases next <;> rfl

section Table

variable {V : Type} {fn : WriteElementFn V} {fn' : MultithreadedWebServer.WriteElementFn V}

theorem run_writeBucketRecord (li : LinkedList (HTKeyValue V)) (brOffset bOffset : ℕ) :
    Calls.run perform (writeBucketRecord li brOffset bOffset) =
      MultithreadedWebServer.writeBucketRecord li brOffset bOffset := by
  refine Calls.run_bind_congr perform (run_fseek _) fun b => ?_
  refine Calls.run_ite_congr perform (fun _ => ?_) fun _ => rfl
  refine Calls.run_bind_congr perform (run_fwrite _) fun res => ?_
  exact Calls.run_ite_congr perform (fun _ => rfl) fun _ => rfl

theorem run_writeElements (hfn : ∀ p kv, Calls.run perform (fn p kv) = fn' p kv)
    (li : LinkedList (HTKeyValue V)) (offset : ℕ) : ∀ (left j : ℕ) (it : LLIter) (bl next : ℕ),
    Calls.run perform (writeElements fn li offset left j it bl next) =
      MultithreadedWebServer.writeElements fn' li offset left j it bl next
  | 0, _, _, _, _ => rfl
  | left + 1, j, it, bl, next => by
    refine Calls.run_bind_congr perform (run_fseek _) fun b => ?_
    refine Calls.run_ite_congr perform (fun _ => ?_) fun _ => rfl
    refine Calls.run_bind_congr perform (run_fwrite _) fun res => ?_
    refine Calls.run_ite_congr perform (fun _ => rfl) fun _ => ?_
    refine Calls.run_bind_congr perform (run_getPayload li it) fun kv => ?_
    refine Calls.run_bind_congr perform (hfn next kv) fun ellen => ?_
    refine Calls.run_bind_congr perform (Calls.run_verify333 perform _) fun _ => ?_
    refine Calls.run_bind_congr perform (run_iteratorNext li it) fun next => ?_
    exact run_writeElements hfn li offset left _ _ _ _

theorem run_writeBucket (hfn : ∀ p kv, Calls.run perform (fn p kv) = fn' p kv)
    (li : LinkedList (HTKeyValue V)) (offset : ℕ) :
    Calls.run perform (writeBucket fn li offset) =
      MultithreadedWebServer.writeBucket fn' li offset := by
  refine Calls.run_ite_congr perform (fun _ => ?_) fun _ => rfl
  refine Calls.run_bind_congr perform (run_withMallocs _) fun it => ?_
  cases it with
  | none => rfl
  | some it => exact run_writeElements hfn li offset _ _ _ _ _

theorem run_writeBuckets (hfn : ∀ p kv, Calls.run perform (fn p kv) = fn' p kv)
    (ht : HashTable V) : ∀ left i r q : ℕ,
    Calls.run perform (writeBuckets fn ht left i r q) =
      MultithreadedWebServer.writeBuckets fn' ht left i r q
  | 0, _, _, _ => rfl
  | left + 1, i, r, q => by
    refine Calls.run_bind_congr perform (run_bucketAt ht i) fun li => ?_
    refine Calls.run_bind_congr perform (run_writeBucketRecord li r q) fun res => ?_
    refine Calls.run_bind_congr perform (Calls.run_verify333 perform _) fun _ => ?_
    refine Calls.run_ite_congr perform (fun _ => ?_) fun _ => run_writeBuckets hfn ht left _ _ _
    refine Calls.run_bind_congr perform (run_writeBucket hfn li q) fun res => ?_
    refine Calls.run_bind_congr perform (Calls.run_verify333 perform _) fun _ => ?_
    exact run_writeBuckets hfn ht left _ _ _

theorem run_writeHashTable (hfn : ∀ p kv, Calls.run perform (fn p kv) = fn' p kv)
    (ht : HashTable V) (offset : ℕ) :
    Calls.run perform (writeHashTable ht offset fn) =
      MultithreadedWebServer.writeHashTable ht offset fn' := by
  refine Calls.run_bind_congr perform (run_fseek _) fun b => ?_
  refine Calls.run_ite_congr perform (fun _ => ?_) fun _ => rfl
  refine Calls.run_bind_congr perform (run_fwrite _) fun res => ?_
  refine Calls.run_ite_congr perform (fun _ => rfl) fun _ => ?_
  exact Calls.run_bind_congr perform (run_writeBuckets hfn ht _ _ _ _) fun _ => rfl

end Table

theorem run_writeDocidDocnameFn (p : ℕ) (kv : HTKeyValue CString) :
    Calls.run perform (writeDocidDocnameFn p kv) =
      MultithreadedWebServer.writeDocidDocnameFn p kv := by
  refine Calls.run_bind_congr perform (run_fseek _) fun b => ?_
  refine Calls.run_ite_congr perform (fun _ => ?_) fun _ => rfl
  refine Calls.run_bind_congr perform (run_fwrite _) fun res => ?_
  refine Calls.run_ite_congr perform (fun _ => rfl) fun _ => ?_
  refine Calls.run_bind_congr perform (run_fwrite _) fun res => ?_
  exact Calls.run_ite_congr perform (fun _ => rfl) fun _ => rfl

theorem run_writeDocTable (dt : DocTable) (offset : ℕ) :
    Calls.run perform (writeDocTable dt offset) =
      MultithreadedWebServer.writeDocTable dt offset :=
  run_writeHashTable run_writeDocidDocnameFn (dtGetDocidTable dt) offset

theorem run_writePositions (positions : LinkedList UInt64) : ∀ (left : ℕ) (it : LLIter),
    Calls.run perform (writePositions positions left it) =
      MultithreadedWebServer.writePositions positions left it
  | 0, _ => rfl
  | left + 1, it => by
    refine Calls.run_bind_congr perform (run_getPayload positions it) fun payload => ?_
    refine Calls.run_bind_congr perform (run_fwrite _) fun _ => ?_
    refine Calls.run_bind_congr perform (run_iteratorNext positions it) fun next => ?_
    exact run_writePositions positions left _

theorem run_writeDocPositionListFn (p : ℕ) (kv : HTKeyValue (LinkedList UInt64)) :
    Calls.run perform (writeDocPositionListFn p kv) =
      MultithreadedWebServer.writeDocPositionListFn p kv := by
  refine Calls.run_bind_congr perform (run_fseek _) fun b => ?_
  refine Calls.run_ite_congr perform (fun _ => ?_) fun _ => rfl
  refine Calls.run_bind_congr perform (run_fwrite _) fun res => ?_
  refine Calls.run_ite_congr perform (fun _ => rfl) fun _ => ?_
  refine Calls.run_bind_congr perform (run_withMallocs _) fun it => ?_
  cases it with
  | none => rfl
  | some it => exact Calls.run_bind_congr perform (run_writePositions _ _ it) fun _ => rfl

theorem run_writeWordDocSetFn (records : Arena WordDocSet) (p : ℕ) (kv : HTKeyValue Addr) :
    Calls.run perform (writeWordDocSetFn records p kv) =
      MultithreadedWebServer.writeWordDocSetFn records p kv := by
  refine Calls.run_bind_congr perform (run_deref _ _) fun wds => ?_
  refine Calls.run_bind_congr perform (Calls.run_verify333 perform _) fun _ => ?_
  refine Calls.run_bind_congr perform (run_writeHashTable run_writeDocPositionListFn _ _)
    fun htlen => ?_
  refine Calls.run_bind_congr perform (run_fseek _) fun b => ?_
  refine Calls.run_ite_congr perform (fun _ => ?_) fun _ => rfl
  refine Calls.run_bind_congr perform (run_fwrite _) fun res => ?_
  refine Calls.run_ite_congr perform (fun _ => rfl) fun _ => ?_
  refine Calls.run_bind_congr perform (run_fwrite _) fun res => ?_
  exact Calls.run_ite_congr perform (fun _ => rfl) fun _ => rfl

theorem run_writeMemIndex (mi : MemIndex) (offset : ℕ) :
    Calls.run perform (writeMemIndex mi offset) =
      MultithreadedWebServer.writeMemIndex mi offset :=
  run_writeHashTable (run_writeWordDocSetFn mi.records) mi.table offset

theorem run_foldFile : ∀ (left : ℕ) (crc : UInt32),
    Calls.run perform (foldFile left crc) = MultithreadedWebServer.foldFile left crc
  | 0, _ => rfl
  | left + 1, crc => by
    refine Calls.run_bind_congr perform run_freadByte fun curByte => ?_
    cases curByte with
    | none => rfl
    | some curByte => exact run_foldFile left _

theorem run_writeHeader (doctSize memidxSize : ℕ) :
    Calls.run perform (writeHeader doctSize memidxSize) =
      MultithreadedWebServer.writeHeader doctSize memidxSize := by
  refine Calls.run_bind_congr perform (run_fseek _) fun b => ?_
  refine Calls.run_ite_congr perform (fun _ => ?_) fun _ => rfl
  refine Calls.run_bind_congr perform (run_foldFile _ _) fun crc => ?_
  refine Calls.run_bind_congr perform (run_fseek _) fun b => ?_
  refine Calls.run_ite_congr perform (fun _ => ?_) fun _ => rfl
  refine Calls.run_bind_congr perform (run_fwrite _) fun res => ?_
  refine Calls.run_ite_congr perform (fun _ => rfl) fun _ => ?_
  refine Calls.run_bind_congr perform run_fsync fun synced => ?_
  exact Calls.run_bind_congr perform (Calls.run_verify333 perform _) fun _ => rfl

/-- With the calls of `IndexWriter` the program is `WriteIndex`. -/
theorem run_writeIndex (mi : MemIndex) (dt : DocTable) :
    Calls.run perform (writeIndex mi dt) = MultithreadedWebServer.writeIndex mi dt := by
  refine Calls.run_bind_congr perform run_fopen fun opened => ?_
  refine Calls.run_ite_congr perform (fun _ => ?_) fun _ => rfl
  refine Calls.run_bind_congr perform (run_writeDocTable dt 16) fun dtres => ?_
  refine Calls.run_ite_congr perform (fun _ => Calls.run_bind_congr perform run_unlink fun _ => rfl)
    fun _ => ?_
  refine Calls.run_bind_congr perform (run_writeMemIndex mi _) fun mires => ?_
  refine Calls.run_ite_congr perform (fun _ => Calls.run_bind_congr perform run_unlink fun _ => rfl)
    fun _ => ?_
  refine Calls.run_bind_congr perform (run_writeHeader dtres mires) fun hdres => ?_
  exact Calls.run_ite_congr perform
    (fun _ => Calls.run_bind_congr perform run_unlink fun _ => rfl) fun _ => rfl

end Run

end WriterCalls

end MultithreadedWebServer
