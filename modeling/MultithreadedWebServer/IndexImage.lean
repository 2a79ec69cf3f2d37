import MultithreadedWebServer.DocTable
import MultithreadedWebServer.FileLayout
import MultithreadedWebServer.MemIndexRefine

/-!
# What an index file looks like

The file format as a function: `tableImage elem offset chains` is a hash table at an
offset of the file, over any kind of element whose bytes `elem` may depend on where they
stand. That dependence is what nests tables, since a table holds offsets from the start
of the file. The writer produces these images, and the readers only rely on them.
-/

namespace MultithreadedWebServer

/-! ## Tables -/

section Table

variable {E : Type} (elem : ℕ → E → List UInt8)

/-- Elements one after the other. -/
def elementsImage : ℕ → List E → List UInt8
  | _, [] => []
  | pos, e :: es => elem pos e ++ elementsImage (pos + (elem pos e).length) es

/-- Where they are. -/
def elementPositions : ℕ → List E → List ElementPositionRec
  | _, [] => []
  | pos, e :: es => ⟨UInt32.ofNat pos⟩ :: elementPositions (pos + (elem pos e).length) es

/-- A bucket: the positions of the elements, and the elements. -/
def bucketImage (offset : ℕ) (chain : List E) : List UInt8 :=
  (elementPositions elem (offset + 4 * chain.length) chain).flatMap onDisk ++
    elementsImage elem (offset + 4 * chain.length) chain

/-- The bucket records, when the first bucket is at an offset. -/
def recsImage : ℕ → List (List E) → List UInt8
  | _, [] => []
  | offset, chain :: chains =>
    onDisk (⟨UInt32.ofNat chain.length, UInt32.ofNat offset⟩ : BucketRec) ++
      recsImage (offset + (bucketImage elem offset chain).length) chains

/-- The buckets one after the other. -/
def bucketsImage : ℕ → List (List E) → List UInt8
  | _, [] => []
  | offset, chain :: chains =>
    bucketImage elem offset chain ++
      bucketsImage (offset + (bucketImage elem offset chain).length) chains

/-- A hash table. -/
def tableImage (offset : ℕ) (chains : List (List E)) : List UInt8 :=
  onDisk (⟨UInt32.ofNat chains.length⟩ : BucketListHeader) ++
    (recsImage elem (offset + 4 + 8 * chains.length) chains ++
      bucketsImage elem (offset + 4 + 8 * chains.length) chains)

variable {elem}

theorem length_flatMap_onDisk {α : Type} [DiskStruct α] (xs : List α) :
    (xs.flatMap onDisk).length = DiskStruct.size α * xs.length := by
  induction xs with
  | nil => rfl
  | cons x xs ih =>
    rw [List.flatMap_cons, List.length_append, length_onDisk, ih, List.length_cons, Nat.mul_succ]
    omega

@[simp] theorem length_elementPositions : ∀ (pos : ℕ) (es : List E),
    (elementPositions elem pos es).length = es.length
  | _, [] => rfl
  | _, _ :: es => congrArg (· + 1) (length_elementPositions _ es)

@[simp] theorem length_recsImage : ∀ (offset : ℕ) (chains : List (List E)),
    (recsImage elem offset chains).length = 8 * chains.length
  | _, [] => rfl
  | offset, chain :: chains => by
    rw [recsImage, List.length_append, length_recsImage, length_onDisk, List.length_cons,
      Nat.mul_succ, Nat.add_comm]
    rfl

theorem length_bucketImage (elem : ℕ → E → List UInt8) (offset : ℕ) (chain : List E) :
    (bucketImage elem offset chain).length =
      4 * chain.length + (elementsImage elem (offset + 4 * chain.length) chain).length := by
  rw [bucketImage, List.length_append, length_flatMap_onDisk, length_elementPositions]
  rfl

theorem length_tableImage (offset : ℕ) (chains : List (List E)) :
    (tableImage elem offset chains).length = 4 + (8 * chains.length +
      (bucketsImage elem (offset + 4 + 8 * chains.length) chains).length) := by
  rw [tableImage, List.length_append, List.length_append, length_recsImage, length_onDisk]
  rfl

/-- Every element has its position in the table. -/
theorem length_le_bucketsImage (elem : ℕ → E → List UInt8) :
    ∀ (offset : ℕ) (chains : List (List E)),
    4 * chains.flatten.length ≤ (bucketsImage elem offset chains).length
  | _, [] => Nat.zero_le _
  | offset, chain :: chains => by
    have hrest :=
      length_le_bucketsImage elem (offset + (bucketImage elem offset chain).length) chains
    rw [bucketsImage, List.length_append, List.flatten_cons, List.length_append]
    rw [length_bucketImage] at hrest ⊢
    omega

theorem elementsImage_append : ∀ (pos : ℕ) (xs ys : List E),
    elementsImage elem pos (xs ++ ys) = elementsImage elem pos xs ++
      elementsImage elem (pos + (elementsImage elem pos xs).length) ys
  | _, [], _ => rfl
  | pos, x :: xs, ys => by
    rw [List.cons_append, elementsImage, elementsImage_append, elementsImage, List.length_append,
      List.append_assoc, Nat.add_assoc]

theorem elementPositions_append : ∀ (pos : ℕ) (xs ys : List E),
    elementPositions elem pos (xs ++ ys) = elementPositions elem pos xs ++
      elementPositions elem (pos + (elementsImage elem pos xs).length) ys
  | _, [], _ => rfl
  | pos, x :: xs, ys => by
    rw [List.cons_append, elementPositions, elementPositions_append, elementPositions,
      elementsImage, List.length_append, List.cons_append, Nat.add_assoc]

theorem bucketsImage_append : ∀ (offset : ℕ) (xs ys : List (List E)),
    bucketsImage elem offset (xs ++ ys) = bucketsImage elem offset xs ++
      bucketsImage elem (offset + (bucketsImage elem offset xs).length) ys
  | _, [], _ => rfl
  | offset, x :: xs, ys => by
    rw [List.cons_append, bucketsImage, bucketsImage_append, bucketsImage, List.length_append,
      List.append_assoc, Nat.add_assoc]

theorem recsImage_append : ∀ (offset : ℕ) (xs ys : List (List E)),
    recsImage elem offset (xs ++ ys) = recsImage elem offset xs ++
      recsImage elem (offset + (bucketsImage elem offset xs).length) ys
  | _, [], _ => rfl
  | offset, x :: xs, ys => by
    rw [List.cons_append, recsImage, recsImage_append, recsImage, bucketsImage,
      List.length_append, List.append_assoc, Nat.add_assoc]

/-! ## Finding the way -/

/-- An element stands at a position that is recorded in 32 bits. -/
def ElementAt (elem : ℕ → E → List UInt8) (b : List UInt8) (r : ElementPositionRec) (e : E) :
    Prop :=
  BytesAt b r.elementPosition.toNat (elem r.elementPosition.toNat e) ∧
    r.elementPosition.toNat + (elem r.elementPosition.toNat e).length < 2 ^ 32

theorem elementAt_positions {b : List UInt8} : ∀ {pos : ℕ} {es : List E},
    BytesAt b pos (elementsImage elem pos es) →
    pos + (elementsImage elem pos es).length < 2 ^ 32 →
    List.Forall₂ (ElementAt elem b) (elementPositions elem pos es) es
  | _, [], _, _ => .nil
  | pos, e :: es, h, hfit => by
    rw [elementsImage, List.length_append] at hfit
    rw [elementsImage] at h
    have hpos : (UInt32.ofNat pos).toNat = pos :=
      UInt32.toNat_ofNat_of_lt' (show pos < UInt32.size by unfold UInt32.size; omega)
    refine .cons ?_ (elementAt_positions h.right (by omega))
    rw [ElementAt, hpos]
    exact ⟨h.left, by omega⟩

/-- A bucket record leads to its bucket. -/
theorem bucketAt_record {b : List UInt8} : ∀ {chains : List (List E)} {r q : ℕ},
    BytesAt b r (recsImage elem q chains) → BytesAt b q (bucketsImage elem q chains) →
    ∀ {i : ℕ} {chain : List E}, chains[i]? = some chain → ∃ p,
      BytesAt b (r + 8 * i)
        (onDisk (⟨UInt32.ofNat chain.length, UInt32.ofNat p⟩ : BucketRec)) ∧
      BytesAt b p (bucketImage elem p chain) ∧
      p + (bucketImage elem p chain).length ≤ q + (bucketsImage elem q chains).length
  | [], _, _, _, _, i, chain, hi => by cases hi
  | c :: chains, r, q, hrecs, hbuckets, 0, chain, hi => by
    obtain rfl : c = chain := by simpa using hi
    refine ⟨q, hrecs.left, hbuckets.left, ?_⟩
    rw [bucketsImage, List.length_append]
    omega
  | c :: chains, r, q, hrecs, hbuckets, i + 1, chain, hi => by
    have hrecs' : BytesAt b (r + 8) _ := hrecs.right
    obtain ⟨p, hrec, hbucket, hle⟩ := bucketAt_record hrecs' hbuckets.right
      (show chains[i]? = some chain by simpa using hi)
    refine ⟨p, ?_, hbucket, ?_⟩
    · rwa [show r + 8 * (i + 1) = r + 8 + 8 * i by omega]
    · rw [bucketsImage, List.length_append]
      omega

/-- A table stands at an offset, within the first `2 ^ 32` bytes. -/
structure TableAt (elem : ℕ → E → List UInt8) (b : List UInt8) (offset : ℕ)
    (chains : List (List E)) : Prop where
  /-- its bytes -/
  bytes : BytesAt b offset (tableImage elem offset chains)
  /-- are within reach -/
  fits : offset + (tableImage elem offset chains).length < 2 ^ 32

/-- The bucket of a table: its record, its positions, and its elements. -/
theorem TableAt.bucket {b : List UInt8} {offset : ℕ} {chains : List (List E)}
    (h : TableAt elem b offset chains) {i : ℕ} {chain : List E} (hi : chains[i]? = some chain) :
    ∃ (r : BucketRec) (recs : List ElementPositionRec),
      BytesAt b (offset + 4 + 8 * i) (onDisk r) ∧ r.chainLen.toNat = chain.length ∧
      BytesAt b r.bucketPosition.toNat (recs.flatMap onDisk) ∧
      List.Forall₂ (ElementAt elem b) recs chain := by
  have hfit := h.fits
  have hbytes := h.bytes
  rw [length_tableImage] at hfit
  rw [tableImage] at hbytes
  have hrecs : BytesAt b (offset + 4) _ := hbytes.right.left
  have hbuckets := hbytes.right.right
  rw [length_recsImage] at hbuckets
  obtain ⟨p, hrec, hbucket, hle⟩ := bucketAt_record hrecs hbuckets hi
  have hlen := length_bucketImage elem p chain
  have hsize : UInt32.size = 2 ^ 32 := rfl
  have hp : (UInt32.ofNat p).toNat = p := UInt32.toNat_ofNat_of_lt' (by omega)
  refine ⟨_, elementPositions elem (p + 4 * chain.length) chain, hrec,
    UInt32.toNat_ofNat_of_lt' (by omega), ?_, ?_⟩
  · rw [hp]
    exact hbucket.left
  · have hright := hbucket.right
    rw [length_flatMap_onDisk, length_elementPositions] at hright
    exact elementAt_positions hright (by omega)

end Table

/-! ## Elements -/

/-- The pairs of a table, chain by chain. -/
def HashTable.chains {V : Type} (t : HashTable V) : List (List (HTKeyValue V)) :=
  t.buckets.map LinkedList.toList

/-- A document and its name. -/
def docNameElem (_ : ℕ) (kv : HTKeyValue CString) : List UInt8 :=
  onDisk (⟨kv.key, UInt16.ofNat kv.value.bytes.length⟩ : DoctableElementHeader) ++ kv.value.bytes

/-- The position that is written for a payload. -/
def diskPosition (payload : UInt64) : DocidElementPosition := ⟨payload.toUInt32⟩

/-- A document and its posting list. -/
def postingElem (_ : ℕ) (kv : HTKeyValue (LinkedList UInt64)) : List UInt8 :=
  onDisk (⟨kv.key, UInt32.ofNat kv.value.toList.length⟩ : DocidElementHeader) ++
    (kv.value.toList.map diskPosition).flatMap onDisk

/-- A word and the table of its documents, which starts behind the word. -/
def wordDocSetImage (pos : ℕ) (wds : WordDocSet) : List UInt8 :=
  let docIDs := tableImage postingElem (pos + 6 + wds.word.bytes.length) wds.docIDs.chains
  onDisk (⟨UInt16.ofNat wds.word.bytes.length, UInt32.ofNat docIDs.length⟩ : WorddocsetHeader) ++
    (wds.word.bytes ++ docIDs)

/-- The element of the index that a pointer stands for. -/
def wordElem (records : Arena WordDocSet) (pos : ℕ) (kv : HTKeyValue Addr) : List UInt8 :=
  match records.read kv.value with
  | some wds => wordDocSetImage pos wds
  | none => []

/-! ## The file -/

/-- The document table. -/
def docTableImage (dt : DocTable) : List UInt8 :=
  tableImage docNameElem 16 (dtGetDocidTable dt).chains

/-- The index table, behind it. -/
def indexTableImage (mi : MemIndex) (dt : DocTable) : List UInt8 :=
  tableImage (wordElem mi.records) (16 + (docTableImage dt).length) mi.table.chains

/-- The two tables. -/
def tablesImage (mi : MemIndex) (dt : DocTable) : List UInt8 :=
  docTableImage dt ++ indexTableImage mi dt

/-- The header of a file with these two tables. -/
def headerOf (docs index : List UInt8) : IndexFileHeader where
  magicNumber := magicNumber
  checksum := getFinalCRC ((docs ++ index).foldl foldByteIntoCRC crcInit)
  doctableSize := UInt32.ofNat docs.length
  indexSize := UInt32.ofNat index.length

/-- A file with these two tables. -/
def fileOf (docs index : List UInt8) : List UInt8 := onDisk (headerOf docs index) ++ (docs ++ index)

theorem length_fileOf (docs index : List UInt8) :
    (fileOf docs index).length = 16 + (docs.length + index.length) := by
  rw [fileOf, List.length_append, List.length_append, length_onDisk]
  rfl

/-- The header of the file. -/
def fileHeader (mi : MemIndex) (dt : DocTable) : IndexFileHeader where
  magicNumber := magicNumber
  checksum := getFinalCRC ((tablesImage mi dt).foldl foldByteIntoCRC crcInit)
  doctableSize := UInt32.ofNat (docTableImage dt).length
  indexSize := UInt32.ofNat (indexTableImage mi dt).length

/-- An index file. -/
def fileImage (mi : MemIndex) (dt : DocTable) : List UInt8 :=
  onDisk (fileHeader mi dt) ++ tablesImage mi dt

/-- A word or a name that its length field can hold: 1 to 65535 bytes. -/
def FitsLength (s : CString) : Prop := 0 < s.bytes.length ∧ s.bytes.length < 2 ^ 16

/-- What the file format can hold: a document table and an index with names and words of
1 to 65535 bytes, and a file below `2 ^ 32` bytes. -/
structure FitsFormat (mi : MemIndex) (dt : DocTable) : Prop where
  /-- the document table is a table -/
  docs : (dtGetDocidTable dt).WF
  /-- of names -/
  names : ∀ kv ∈ (dtGetDocidTable dt).entries, FitsLength kv.value
  /-- the index is an index, with non-empty posting lists -/
  index : MemIndex.Wired mi
  /-- of words -/
  words : ∀ key set, mi.get? key = some set → FitsLength set.word
  /-- the size of the file -/
  size : (fileImage mi dt).length < 2 ^ 32

theorem length_fileImage (mi : MemIndex) (dt : DocTable) : (fileImage mi dt).length =
    16 + ((docTableImage dt).length + (indexTableImage mi dt).length) :=
  length_fileOf _ _

section FileOf

variable {E : Type} {elem : ℕ → E → List UInt8} {chains : List (List E)}

/-- A table behind the header. -/
theorem docTable_at_fileOf {index : List UInt8}
    (hsize : 16 + ((tableImage elem 16 chains).length + index.length) < 2 ^ 32) :
    TableAt elem (fileOf (tableImage elem 16 chains) index) 16 chains where
  bytes := bytesAt_self (onDisk (headerOf (tableImage elem 16 chains) index)) _ index
  fits := by omega

/-- And one behind that. -/
theorem indexTable_at_fileOf {docs : List UInt8}
    (hsize : 16 + (docs.length + (tableImage elem (16 + docs.length) chains).length) < 2 ^ 32) :
    TableAt elem (fileOf docs (tableImage elem (16 + docs.length) chains)) (16 + docs.length)
      chains where
  bytes := by
    have hat := bytesAt_self
      (onDisk (headerOf docs (tableImage elem (16 + docs.length) chains)) ++ docs)
      (tableImage elem (16 + docs.length) chains) []
    rw [List.append_nil, List.append_assoc, List.length_append, length_onDisk] at hat
    exact hat
  fits := by omega

end FileOf

theorem FitsFormat.fits {mi : MemIndex} {dt : DocTable} (h : FitsFormat mi dt) :
    16 + ((docTableImage dt).length + (indexTableImage mi dt).length) < 2 ^ 32 := by
  rw [← length_fileImage]
  exact h.size

/-- The document table stands behind the header. -/
theorem FitsFormat.docTable_at {mi : MemIndex} {dt : DocTable} (h : FitsFormat mi dt) :
    TableAt docNameElem (fileImage mi dt) 16 (dtGetDocidTable dt).chains :=
  docTable_at_fileOf h.fits

/-- And the index table behind that. -/
theorem FitsFormat.indexTable_at {mi : MemIndex} {dt : DocTable} (h : FitsFormat mi dt) :
    TableAt (wordElem mi.records) (fileImage mi dt) (16 + (docTableImage dt).length)
      mi.table.chains :=
  indexTable_at_fileOf h.fits

end MultithreadedWebServer
