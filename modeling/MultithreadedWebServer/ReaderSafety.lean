import MultithreadedWebServer.IndexReader

/-!
# The readers on a file that nobody wrote

A checksum does not say that the contents of a file make sense. On a file with arbitrary
contents a reader fails safe when it returns, or when a `Verify333` fails: then it has neither
divided by zero nor used a record that a `fread` did not fill. The four lookups fail safe
exactly when their table has a bucket. `GetDocIDList` does not check two of its three reads,
and fails safe exactly when none of the two that it gets to is short.
-/

namespace MultithreadedWebServer

/-! ## Failing safe -/

/-- The function returns, or a `Verify333` fails. What else a reader can do is a fault: it
divides by zero, or goes on with a record that it did not read. -/
def FailsSafe {α : Type} (m : Except Stop α) : Prop := ∀ e, m = .error e → e = .verify333

/-- The function returns. -/
def Completes {α : Type} (m : Except Stop α) : Prop := ∃ a, m = .ok a

section Rules

variable {α β : Type} {m : Except Stop α} {f : α → Except Stop β}

theorem failsSafe_ok (a : α) : FailsSafe (.ok a : Except Stop α) := nofun

theorem failsSafe_verify333 : FailsSafe (.error .verify333 : Except Stop α) := fun _ h =>
  (Except.error.inj h).symm

theorem not_failsSafe_fault : ¬ FailsSafe (.error .fault : Except Stop α) := fun h => by
  cases h .fault rfl

/-- What follows has to fail safe only if the function returns. -/
theorem failsSafe_bind_iff :
    FailsSafe (m >>= f) ↔ FailsSafe m ∧ ∀ a, m = .ok a → FailsSafe (f a) := by
  cases m with
  | error e =>
    constructor
    · intro h
      exact ⟨fun e' he' => h e' (by rw [he']; rfl), nofun⟩
    · rintro ⟨h, -⟩ e' he'
      have herror : (.error e : Except Stop β) = .error e' := he'
      obtain rfl := Except.error.inj herror
      exact h e rfl
  | ok a =>
    constructor
    · intro h
      refine ⟨failsSafe_ok a, fun a' ha' => ?_⟩
      obtain rfl := Except.ok.inj ha'
      exact h
    · rintro ⟨-, h⟩
      exact h a rfl

theorem FailsSafe.bind (hm : FailsSafe m) (hf : ∀ a, FailsSafe (f a)) : FailsSafe (m >>= f) :=
  failsSafe_bind_iff.mpr ⟨hm, fun a _ => hf a⟩

theorem ok_of_bind {b : β} (h : (m >>= f) = .ok b) : ∃ a, m = .ok a ∧ f a = .ok b := by
  cases m with
  | error e => cases h
  | ok a => exact ⟨a, rfl, h⟩

theorem completes_bind_iff : Completes (m >>= f) ↔ ∃ a, m = .ok a ∧ Completes (f a) := by
  constructor
  · rintro ⟨b, hb⟩
    obtain ⟨a, ha, hrest⟩ := ok_of_bind hb
    exact ⟨a, ha, b, hrest⟩
  · rintro ⟨a, rfl, h⟩
    exact h

end Rules

/-! ## Loops -/

/-- A loop with the number of iterations that are left and the number of the next one. -/
structure IsLoop {α β : Type} (loop : ℕ → ℕ → Except Stop β) (step : ℕ → Except Stop α)
    (join : α → β → β) (last : β) : Prop where
  /-- no iteration is left -/
  zero : ∀ i, loop 0 i = .ok last
  /-- an iteration, and the rest -/
  succ : ∀ left i, loop (left + 1) i = step i >>= fun a => loop left (i + 1) >>= fun rest =>
    .ok (join a rest)

section Loop

variable {α β : Type} {loop : ℕ → ℕ → Except Stop β} {step : ℕ → Except Stop α}
  {join : α → β → β} {last : β}

/-- What holds of the first and of what comes behind it holds of all. -/
theorem forall_lt_succ {p : ℕ → Prop} {left i : ℕ} :
    (∀ k < left + 1, p (i + k)) ↔ p i ∧ ∀ k < left, p (i + 1 + k) := by
  constructor
  · intro h
    refine ⟨h 0 (Nat.succ_pos left), fun k hk => ?_⟩
    have hnext := h (k + 1) (Nat.succ_lt_succ hk)
    rwa [Nat.add_comm k 1, ← Nat.add_assoc] at hnext
  · rintro ⟨hfirst, hrest⟩ k hk
    cases k with
    | zero => exact hfirst
    | succ k =>
      have hnext := hrest k (Nat.lt_of_succ_lt_succ hk)
      rwa [Nat.add_assoc, Nat.add_comm 1 k] at hnext

/-- A loop returns if its iterations do. -/
theorem IsLoop.completes_iff (h : IsLoop loop step join last) : ∀ (left i : ℕ),
    Completes (loop left i) ↔ ∀ k < left, Completes (step (i + k))
  | 0, i => by
    rw [h.zero]
    exact iff_of_true ⟨last, rfl⟩ fun k hk => absurd hk (Nat.not_lt_zero k)
  | left + 1, i => by
    rw [h.succ, completes_bind_iff, forall_lt_succ (p := fun i => Completes (step i)),
      ← h.completes_iff left (i + 1)]
    constructor
    · rintro ⟨a, ha, hrest⟩
      obtain ⟨rest, hloop, -⟩ := completes_bind_iff.mp hrest
      exact ⟨⟨a, ha⟩, rest, hloop⟩
    · rintro ⟨⟨a, ha⟩, rest, hloop⟩
      exact ⟨a, ha, completes_bind_iff.mpr ⟨rest, hloop, _, rfl⟩⟩

/-- A loop fails safe if its iterations do, up to the first that does not return. -/
theorem IsLoop.failsSafe_iff (h : IsLoop loop step join last) : ∀ (left i : ℕ),
    FailsSafe (loop left i) ↔
      ∀ k < left, (∀ k' < k, Completes (step (i + k'))) → FailsSafe (step (i + k))
  | 0, i => by
    rw [h.zero]
    exact iff_of_true (failsSafe_ok last) fun k hk => absurd hk (Nat.not_lt_zero k)
  | left + 1, i => by
    have hnext : ∀ a, FailsSafe (loop left (i + 1) >>= fun rest => .ok (join a rest)) ↔
        FailsSafe (loop left (i + 1)) := by
      intro a
      rw [failsSafe_bind_iff]
      exact and_iff_left fun rest _ => failsSafe_ok _
    rw [h.succ, failsSafe_bind_iff]
    simp only [hnext]
    rw [h.failsSafe_iff left (i + 1)]
    constructor
    · rintro ⟨hfirst, hrest⟩ k hk hbefore
      cases k with
      | zero => exact hfirst
      | succ k =>
        obtain ⟨⟨a, ha⟩, hbefore'⟩ :=
          (forall_lt_succ (p := fun i => Completes (step i))).mp hbefore
        have hstep := hrest a ha k (Nat.lt_of_succ_lt_succ hk) hbefore'
        rwa [Nat.add_assoc, Nat.add_comm 1 k] at hstep
    · intro hall
      refine ⟨hall 0 (Nat.succ_pos left) fun k' hk' => absurd hk' (Nat.not_lt_zero k'),
        fun a ha k hk hbefore => ?_⟩
      have hstep := hall (k + 1) (Nat.succ_lt_succ hk)
        ((forall_lt_succ (p := fun i => Completes (step i))).mpr ⟨⟨a, ha⟩, hbefore⟩)
      rwa [Nat.add_comm k 1, ← Nat.add_assoc] at hstep

end Loop

/-! ## Reading -/

section Read

variable {α : Type} [DiskStruct α] {file : List UInt8}

/-- A record that is in the file. -/
def recordAt (α : Type) [DiskStruct α] (file : List UInt8) (pos : ℕ) : Option α :=
  (readAt file pos (DiskStruct.size α)).map ofDisk

theorem freadStruct_eq (pos : ℕ) : freadStruct (α := α) file pos =
    match recordAt α file pos with
    | some x => .ok x
    | none => .error .verify333 := by
  rw [freadStruct, recordAt]
  cases readAt file pos (DiskStruct.size α) <;> rfl

theorem freadUnchecked_eq (pos : ℕ) : freadUnchecked (α := α) file pos =
    match recordAt α file pos with
    | some x => .ok x
    | none => .error .fault := by
  rw [freadUnchecked, recordAt]
  cases readAt file pos (DiskStruct.size α) <;> rfl

/-- With the check a read fails safe. -/
theorem failsSafe_freadStruct (pos : ℕ) : FailsSafe (freadStruct (α := α) file pos) := by
  rw [freadStruct_eq]
  cases recordAt α file pos with
  | none => exact failsSafe_verify333
  | some x => exact failsSafe_ok x

/-- Without it the record has to be there. -/
theorem failsSafe_freadUnchecked_iff (pos : ℕ) :
    FailsSafe (freadUnchecked (α := α) file pos) ↔ ∃ x, recordAt α file pos = some x := by
  rw [freadUnchecked_eq]
  cases recordAt α file pos with
  | none => exact iff_of_false not_failsSafe_fault nofun
  | some x => exact iff_of_true (failsSafe_ok x) ⟨x, rfl⟩

theorem freadStruct_ok_iff {pos : ℕ} {x : α} :
    freadStruct file pos = .ok x ↔ recordAt α file pos = some x := by
  rw [freadStruct_eq]
  cases recordAt α file pos with
  | none => exact iff_of_false nofun nofun
  | some y => exact ⟨fun h => congrArg some (Except.ok.inj h), fun h =>
      congrArg Except.ok (Option.some.inj h)⟩

theorem freadUnchecked_ok_iff {pos : ℕ} {x : α} :
    freadUnchecked file pos = .ok x ↔ recordAt α file pos = some x := by
  rw [freadUnchecked_eq]
  cases recordAt α file pos with
  | none => exact iff_of_false nofun nofun
  | some y => exact ⟨fun h => congrArg some (Except.ok.inj h), fun h =>
      congrArg Except.ok (Option.some.inj h)⟩

theorem failsSafe_freadStructs : ∀ (left pos : ℕ),
    FailsSafe (freadStructs (α := α) file left pos)
  | 0, _ => failsSafe_ok []
  | left + 1, pos => (failsSafe_freadStruct pos).bind fun _ =>
    (failsSafe_freadStructs left _).bind fun _ => failsSafe_ok _

theorem failsSafe_freadChars : ∀ (left pos : ℕ), FailsSafe (freadChars file left pos)
  | 0, _ => failsSafe_ok []
  | left + 1, pos => by
    rw [freadChars]
    cases file[pos]? with
    | none => exact failsSafe_verify333
    | some c => exact (failsSafe_freadChars left (pos + 1)).bind fun _ => failsSafe_ok _

theorem failsSafe_newHashTableReader (offset : ℕ) : FailsSafe (newHashTableReader file offset) :=
  (failsSafe_freadStruct offset).bind fun _ => failsSafe_ok _

end Read

/-! ## The lookups -/

section Lookup

variable {r : HashTableReader}

/-- `LookupElementPositions` checks what it reads, but not the number of buckets. -/
theorem lookupElementPositions_failsSafe_iff (key : UInt64) :
    FailsSafe (lookupElementPositions r key) ↔ r.header.numBuckets ≠ 0 := by
  rw [lookupElementPositions]
  by_cases hzero : r.header.numBuckets = 0
  · rw [if_pos hzero]
    exact iff_of_false not_failsSafe_fault (not_not.mpr hzero)
  · rw [if_neg hzero]
    refine iff_of_true ((failsSafe_freadStruct _).bind fun bRec => ?_) hzero
    split
    · exact failsSafe_ok []
    · exact failsSafe_freadStructs _ _

/-- A lookup that checks what it reads fails safe if the table has a bucket. -/
theorem lookup_failsSafe_iff {α : Type} {f : List ElementPositionRec → Except Stop α}
    (hf : ∀ elements, FailsSafe (f elements)) (key : UInt64) :
    FailsSafe (lookupElementPositions r key >>= f) ↔ r.header.numBuckets ≠ 0 := by
  rw [failsSafe_bind_iff, lookupElementPositions_failsSafe_iff]
  exact and_iff_left fun elements _ => hf elements

theorem failsSafe_docTableLoop {file : List UInt8} {docid : UInt64} :
    ∀ elements, FailsSafe (docTableLoop file docid elements)
  | [] => failsSafe_ok none
  | it :: elements => by
    rw [docTableLoop]
    refine (failsSafe_freadStruct _).bind fun header => ?_
    split
    · exact (failsSafe_freadChars _ _).bind fun _ => failsSafe_ok _
    · exact failsSafe_docTableLoop elements

theorem failsSafe_indexTableLoop {file : List UInt8} {word : CppString} :
    ∀ elements, FailsSafe (indexTableLoop file word elements)
  | [] => failsSafe_ok none
  | it :: elements => by
    rw [indexTableLoop]
    refine (failsSafe_freadStruct _).bind fun header => ?_
    split
    · exact failsSafe_indexTableLoop elements
    · refine (failsSafe_freadChars _ _).bind fun ss => ?_
      split
      · exact (failsSafe_newHashTableReader _).bind fun _ => failsSafe_ok _
      · exact failsSafe_indexTableLoop elements

theorem failsSafe_docIDTableLoop {file : List UInt8} {docid : UInt64} :
    ∀ elements, FailsSafe (docIDTableLoop file docid elements)
  | [] => failsSafe_ok none
  | it :: elements => by
    rw [docIDTableLoop]
    refine (failsSafe_freadStruct _).bind fun header => ?_
    split
    · exact (failsSafe_freadStructs _ _).bind fun _ => failsSafe_ok _
    · exact failsSafe_docIDTableLoop elements

end Lookup

/-! ## GetDocIDList -/

/-- The record of a bucket of a table. -/
def bucketRecAt (file : List UInt8) (offset i : ℕ) : Option BucketRec :=
  recordAt BucketRec file (u32 (offset + 4 + i * 8))

/-- The position of an element of a bucket. -/
def positionAt (file : List UInt8) (bRec : BucketRec) (j : ℕ) : Option ElementPositionRec :=
  recordAt ElementPositionRec file (bRec.bucketPosition.toNat + j * 4)

/-- The header of an element is in the file. -/
def HeaderInFile (file : List UInt8) (ep : ElementPositionRec) : Prop :=
  ∃ docEl, recordAt DocidElementHeader file ep.elementPosition.toNat = some docEl

/-- The position of an element is in the file, and so is the header of the element. -/
def ElementInFile (file : List UInt8) (bRec : BucketRec) (j : ℕ) : Prop :=
  ∃ ep, positionAt file bRec j = some ep ∧ HeaderInFile file ep

/-- The record of a bucket is in the file, and so are its elements. -/
def BucketInFile (file : List UInt8) (offset i : ℕ) : Prop :=
  ∃ bRec, bucketRecAt file offset i = some bRec ∧
    ∀ j < bRec.chainLen.toNat, ElementInFile file bRec j

/-- Behind elements that are in the file comes one whose header is in the file, if its
position is. -/
def ChainGuarded (file : List UInt8) (bRec : BucketRec) : Prop :=
  ∀ j < bRec.chainLen.toNat, (∀ j' < j, ElementInFile file bRec j') →
    ∀ ep, positionAt file bRec j = some ep → HeaderInFile file ep

/-- Behind buckets that are in the file comes one whose record is in the file, and the
headers of its elements are as far as their positions are. -/
def ListGuarded (file : List UInt8) (offset numBuckets : ℕ) : Prop :=
  ∀ i < numBuckets, (∀ i' < i, BucketInFile file offset i') →
    ∃ bRec, bucketRecAt file offset i = some bRec ∧ ChainGuarded file bRec

section List

variable {file : List UInt8}

/-- An iteration of the inner loop. -/
def elementStep (file : List UInt8) (bRec : BucketRec) (j : ℕ) : Except Stop DocidElementHeader :=
  freadStruct file (bRec.bucketPosition.toNat + j * 4) >>= fun ep : ElementPositionRec =>
    freadUnchecked file ep.elementPosition.toNat

theorem isLoop_docIDListBucket (bRec : BucketRec) :
    IsLoop (docIDListBucket file bRec) (elementStep file bRec) List.cons [] where
  zero := fun _ => rfl
  succ := fun left j => by
    rw [docIDListBucket, elementStep, bind_assoc]
    rfl

theorem completes_elementStep_iff {bRec : BucketRec} {j : ℕ} :
    Completes (elementStep file bRec j) ↔ ElementInFile file bRec j := by
  rw [elementStep, completes_bind_iff]
  simp only [freadStruct_ok_iff, Completes, freadUnchecked_ok_iff]
  exact Iff.rfl

theorem failsSafe_elementStep_iff {bRec : BucketRec} {j : ℕ} :
    FailsSafe (elementStep file bRec j) ↔
      ∀ ep, positionAt file bRec j = some ep → HeaderInFile file ep := by
  rw [elementStep, failsSafe_bind_iff, and_iff_right (failsSafe_freadStruct _)]
  simp only [freadStruct_ok_iff, failsSafe_freadUnchecked_iff]
  exact Iff.rfl

/-- An iteration of the outer loop. -/
def bucketStep (r : HashTableReader) (i : ℕ) : Except Stop (List DocidElementHeader) :=
  freadUnchecked r.file (u32 (r.offset + 4 + i * 8)) >>= fun bRec : BucketRec =>
    docIDListBucket r.file bRec bRec.chainLen.toNat 0

theorem isLoop_docIDListLoop (r : HashTableReader) :
    IsLoop (docIDListLoop r) (bucketStep r) (· ++ ·) [] where
  zero := fun _ => rfl
  succ := fun left i => by
    rw [docIDListLoop, bucketStep, bind_assoc]
    rfl

theorem completes_bucketStep_iff {r : HashTableReader} {i : ℕ} :
    Completes (bucketStep r i) ↔ BucketInFile r.file r.offset i := by
  rw [bucketStep, completes_bind_iff]
  simp only [freadUnchecked_ok_iff, (isLoop_docIDListBucket _).completes_iff, Nat.zero_add,
    completes_elementStep_iff]
  exact Iff.rfl

theorem failsSafe_bucketStep_iff {r : HashTableReader} {i : ℕ} :
    FailsSafe (bucketStep r i) ↔
      ∃ bRec, bucketRecAt r.file r.offset i = some bRec ∧ ChainGuarded r.file bRec := by
  rw [bucketStep, failsSafe_bind_iff, failsSafe_freadUnchecked_iff]
  simp only [freadUnchecked_ok_iff, (isLoop_docIDListBucket _).failsSafe_iff, Nat.zero_add,
    completes_elementStep_iff, failsSafe_elementStep_iff]
  constructor
  · rintro ⟨⟨bRec, hrec⟩, hchain⟩
    exact ⟨bRec, hrec, hchain bRec hrec⟩
  · rintro ⟨bRec, hrec, hchain⟩
    refine ⟨⟨bRec, hrec⟩, fun bRec' hrec' => ?_⟩
    obtain rfl := Option.some.inj (hrec.symm.trans hrec')
    exact hchain

theorem getDocIDList_failsSafe_iff (r : HashTableReader) :
    FailsSafe (getDocIDList r) ↔ ListGuarded r.file r.offset r.header.numBuckets.toNat := by
  rw [getDocIDList, (isLoop_docIDListLoop r).failsSafe_iff]
  simp only [Nat.zero_add, completes_bucketStep_iff, failsSafe_bucketStep_iff]
  exact Iff.rfl

end List

/-! ## The readers of a file -/

/-- The classes of readers. -/
inductive TableKind where
  /-- `DocTableReader` -/
  | docTable
  /-- `IndexTableReader` -/
  | indexTable
  /-- `DocIDTableReader` -/
  | docIDTable
  deriving DecidableEq

/-- The readers that a file gives when `FileIndexReader` has validated it. -/
inductive Opened (file : List UInt8) : TableKind → HashTableReader → Prop where
  /-- from `GetDocTableReader` -/
  | docTable {fir : FileIndexReader} {r : HashTableReader} :
    newFileIndexReader file true = .ok fir → getDocTableReader fir = .ok r →
      Opened file .docTable r
  /-- from `GetIndexTableReader` -/
  | indexTable {fir : FileIndexReader} {r : HashTableReader} :
    newFileIndexReader file true = .ok fir → getIndexTableReader fir = .ok r →
      Opened file .indexTable r
  /-- from `LookupWord` -/
  | docIDTable {index r : HashTableReader} {word : CppString} :
    Opened file .indexTable index → lookupWord index word = .ok (some r) →
      Opened file .docIDTable r

/-- The calls of a reader. -/
inductive ReaderCall : TableKind → Type where
  /-- `HashTableReader::LookupElementPositions` -/
  | lookupElementPositions {kind : TableKind} (hashKey : UInt64) : ReaderCall kind
  /-- `DocTableReader::LookupDocID` -/
  | lookupDocName (docid : UInt64) : ReaderCall .docTable
  /-- `IndexTableReader::LookupWord` -/
  | lookupWord (word : CppString) : ReaderCall .indexTable
  /-- `DocIDTableReader::LookupDocID` -/
  | lookupDocID (docid : UInt64) : ReaderCall .docIDTable
  /-- `DocIDTableReader::GetDocIDList` -/
  | getDocIDList : ReaderCall .docIDTable

/-- The call fails safe. -/
def ReaderCall.FailsSafe {kind : TableKind} (r : HashTableReader) : ReaderCall kind → Prop
  | .lookupElementPositions hashKey =>
    MultithreadedWebServer.FailsSafe (MultithreadedWebServer.lookupElementPositions r hashKey)
  | .lookupDocName docid => MultithreadedWebServer.FailsSafe (docTableLookupDocID r docid)
  | .lookupWord word => MultithreadedWebServer.FailsSafe (MultithreadedWebServer.lookupWord r word)
  | .lookupDocID docid => MultithreadedWebServer.FailsSafe (docIDTableLookupDocID r docid)
  | .getDocIDList => MultithreadedWebServer.FailsSafe (MultithreadedWebServer.getDocIDList r)

/-- What a call expects of the table in the file: a lookup expects a bucket, and
`GetDocIDList` that no read is short before a `Verify333` fails. -/
def ReaderCall.Expects {kind : TableKind} (file : List UInt8) (offset : ℕ)
    (header : BucketListHeader) : ReaderCall kind → Prop
  | .getDocIDList => ListGuarded file offset header.numBuckets.toNat
  | _ => header.numBuckets ≠ 0

section Opened

variable {file : List UInt8} {kind : TableKind} {r : HashTableReader}

theorem newFileIndexReader_file {validate : Bool} {fir : FileIndexReader}
    (h : newFileIndexReader file validate = .ok fir) : fir.file = file := by
  rw [newFileIndexReader] at h
  obtain ⟨header, -, h⟩ := ok_of_bind h
  split at h
  · cases h
  · split at h
    · cases h
    · split at h
      · obtain ⟨crc, -, h⟩ := ok_of_bind h
        split at h
        · cases h
        · rw [← Except.ok.inj h]
      · rw [← Except.ok.inj h]

/-- A new reader stands on a header that it read. -/
theorem newHashTableReader_ok {offset : ℕ} (h : newHashTableReader file offset = .ok r) :
    r.file = file ∧ recordAt BucketListHeader file r.offset = some r.header := by
  obtain ⟨header, hread, h⟩ := ok_of_bind h
  rw [← Except.ok.inj h]
  exact ⟨rfl, freadStruct_ok_iff.mp hread⟩

theorem indexTableLoop_ok {word : CppString} : ∀ {elements : List ElementPositionRec},
    indexTableLoop file word elements = .ok (some r) →
    r.file = file ∧ recordAt BucketListHeader file r.offset = some r.header
  | [], h => by cases h
  | it :: elements, h => by
    rw [indexTableLoop] at h
    obtain ⟨header, -, h⟩ := ok_of_bind h
    split at h
    · exact indexTableLoop_ok h
    · obtain ⟨ss, -, h⟩ := ok_of_bind h
      split at h
      · obtain ⟨r', hnew, h⟩ := ok_of_bind h
        obtain rfl := Option.some.inj (Except.ok.inj h)
        exact newHashTableReader_ok hnew
      · exact indexTableLoop_ok h

/-- A reader has the file, and the header that stands at its offset. -/
theorem Opened.header (h : Opened file kind r) :
    r.file = file ∧ recordAt BucketListHeader file r.offset = some r.header := by
  induction h with
  | docTable hfir hreader =>
    rw [← newFileIndexReader_file hfir]
    exact newHashTableReader_ok hreader
  | indexTable hfir hreader =>
    rw [← newFileIndexReader_file hfir]
    exact newHashTableReader_ok hreader
  | docIDTable _ hword ih =>
    obtain ⟨elements, -, hloop⟩ := ok_of_bind hword
    rw [← ih.1]
    exact indexTableLoop_ok hloop

end Opened

/-- On every file that is validated, every call of a reader returns or fails a `Verify333` if
and only if the table of the reader, as it stands in the file, is what the call expects. -/
theorem readers_fail_safe_iff (file : List UInt8) (kind : TableKind) (r : HashTableReader)
    (h : Opened file kind r) (call : ReaderCall kind) :
    call.FailsSafe r ↔ ∃ header, recordAt BucketListHeader file r.offset = some header ∧
      call.Expects file r.offset header := by
  obtain ⟨hfile, hheader⟩ := h.header
  have hexpects : (∃ header, recordAt BucketListHeader file r.offset = some header ∧
      call.Expects file r.offset header) ↔ call.Expects file r.offset r.header := by
    constructor
    · rintro ⟨header, hrecord, hexpects⟩
      obtain rfl := Option.some.inj (hheader.symm.trans hrecord)
      exact hexpects
    · exact fun hexpects => ⟨_, hheader, hexpects⟩
  rw [hexpects]
  cases call with
  | lookupElementPositions hashKey => exact lookupElementPositions_failsSafe_iff hashKey
  | lookupDocName docid => exact lookup_failsSafe_iff failsSafe_docTableLoop docid
  | lookupWord word => exact lookup_failsSafe_iff failsSafe_indexTableLoop _
  | lookupDocID docid => exact lookup_failsSafe_iff failsSafe_docIDTableLoop docid
  | getDocIDList =>
    have hlist := getDocIDList_failsSafe_iff r
    rw [hfile] at hlist
    exact hlist

/-! ## A file with a good checksum -/

/-- A document table without buckets, and an index table with the word `"a"`. The element of
its only document is at the end of the file. -/
def crookedFile : List UInt8 :=
  [202, 254, 240, 13, 152, 99, 93, 106, 0, 0, 0, 4, 0, 0, 0, 39, 0, 0, 0, 0, 0, 0, 0, 1, 0, 0, 0, 1,
    0, 0, 0, 32, 0, 0, 0, 36, 0, 1, 0, 0, 0, 16, 97, 0, 0, 0, 1, 0, 0, 0, 1, 0, 0, 0, 55, 0, 0, 0,
    59]

theorem accepts_crookedFile : newFileIndexReader crookedFile true =
    .ok ⟨crookedFile, ⟨magicNumber, 0x98635D6A, 4, 39⟩⟩ := by
  decide +kernel

theorem opened_crookedFile_docs : Opened crookedFile .docTable ⟨crookedFile, 16, ⟨0⟩⟩ :=
  .docTable accepts_crookedFile (by decide +kernel)

theorem opened_crookedFile_index : Opened crookedFile .indexTable ⟨crookedFile, 20, ⟨1⟩⟩ :=
  .indexTable accepts_crookedFile (by decide +kernel)

theorem opened_crookedFile_postings : Opened crookedFile .docIDTable ⟨crookedFile, 43, ⟨1⟩⟩ := by
  have hword : lookupWord ⟨crookedFile, 20, ⟨1⟩⟩ [97] = .ok (some ⟨crookedFile, 43, ⟨1⟩⟩) := by
    decide +kernel
  exact .docIDTable opened_crookedFile_index hword

/-- A lookup in its document table divides by zero, and `GetDocIDList` returns a header that
it did not read. -/
theorem readers_fault : ∃ docs postings, Opened crookedFile .docTable docs ∧
    lookupElementPositions docs 5 = .error .fault ∧
    docTableLookupDocID docs 5 = .error .fault ∧
    ¬ (ReaderCall.lookupDocName 5).FailsSafe docs ∧
    Opened crookedFile .docIDTable postings ∧ getDocIDList postings = .error .fault ∧
    ¬ ReaderCall.getDocIDList.FailsSafe postings := by
  have hlookup : lookupElementPositions ⟨crookedFile, 16, ⟨0⟩⟩ 5 = .error .fault := rfl
  have hname : docTableLookupDocID ⟨crookedFile, 16, ⟨0⟩⟩ 5 = .error .fault := rfl
  have hlist : getDocIDList ⟨crookedFile, 43, ⟨1⟩⟩ = .error .fault := by decide +kernel
  refine ⟨_, _, opened_crookedFile_docs, hlookup, hname, fun h => ?_,
    opened_crookedFile_postings, hlist, fun h => ?_⟩
  · cases h .fault hname
  · cases h .fault hlist

/-- The index table of the file has a bucket, so a lookup of a word fails safe. -/
theorem readers_fail_safe_iff_crooked :
    (ReaderCall.lookupWord [98]).FailsSafe ⟨crookedFile, 20, ⟨1⟩⟩ := by
  have hbuckets : (1 : UInt32) ≠ 0 := by decide
  exact (readers_fail_safe_iff crookedFile .indexTable ⟨crookedFile, 20, ⟨1⟩⟩
    opened_crookedFile_index (.lookupWord [98])).mpr ⟨⟨1⟩, by decide +kernel, hbuckets⟩

end MultithreadedWebServer
