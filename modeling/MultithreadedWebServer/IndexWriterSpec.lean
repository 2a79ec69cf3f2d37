import MultithreadedWebServer.IndexImage
import MultithreadedWebServer.IndexWriter

/-!
# The writer produces the image

`Writes m p d` says that, as long as no call fails, `m` writes exactly the bytes `d` at
offset `p` and returns how many. The writer jumps around: a table's records are written
in between its buckets, the table of a word before the word. The laws of `writeAt` put
the pieces together.
-/

namespace MultithreadedWebServer

/-! ## Calls that succeed -/

/-- A file with this content, on which no coming call fails. -/
def quiet (b : List UInt8) (pos : ℕ) : IndexFile := ⟨true, b, pos, [], []⟩

theorem fseek_quiet (b : List UInt8) (pos offset : ℕ) :
    (fseek offset).Returns (quiet b pos) true (quiet b offset) := rfl

theorem fwrite_quiet (b : List UInt8) (pos : ℕ) {d : List UInt8} (hd : d ≠ []) :
    (fwrite d).Returns (quiet b pos) 1 (quiet (writeAt b pos d) (pos + d.length)) := by
  rw [fwrite, if_neg hd]
  rfl

theorem withMallocs_quiet {α : Type} {m : Run Schedule α} {a : α} (h : Yields m a)
    (b : List UInt8) (pos : ℕ) : (withMallocs m).Returns (quiet b pos) a (quiet b pos) :=
  Run.Returns.zoom h

/-- When no call fails, `m` writes the bytes `d` at offset `p`, and nothing else. -/
def Writes (m : Run IndexFile ℕ) (p : ℕ) (d : List UInt8) : Prop :=
  ∀ b pos, ∃ pos', m.Returns (quiet b pos) d.length (quiet (writeAt b p d) pos')

/-- A call of `fseek` and one of `fwrite`. -/
theorem seek_write {α : Type} {p : ℕ} {d : List UInt8} (hd : d ≠ [])
    {m n fail : Run IndexFile α} {b : List UInt8} {pos : ℕ} {a : α} {f : IndexFile}
    (h : m.Returns (quiet (writeAt b p d) (p + d.length)) a f) :
    (do if ← fseek p then (if (← fwrite d) ≠ 1 then n else m) else fail : Run IndexFile α).Returns
      (quiet b pos) a f :=
  .bind (fseek_quiet b pos p) (.bind (fwrite_quiet b p hd) h)

/-! ## Tables -/

section Table

variable {V : Type} {elem : ℕ → HTKeyValue V → List UInt8} {fn : WriteElementFn V}

theorem writeBucketRecord_writes (li : LinkedList (HTKeyValue V)) (brOffset bOffset : ℕ) :
    Writes (writeBucketRecord li brOffset bOffset) brOffset
      (onDisk (⟨UInt32.ofNat li.numElements, UInt32.ofNat bOffset⟩ : BucketRec)) :=
  fun _ _ => ⟨_, seek_write (onDisk_ne_nil _) rfl⟩

/-- The element function writes the elements of a chain, wherever they fit. -/
def WritesElements (fn : WriteElementFn V) (elem : ℕ → HTKeyValue V → List UInt8)
    (chain : List (HTKeyValue V)) : Prop :=
  ∀ kv ∈ chain, ∀ p, p + (elem p kv).length < 2 ^ 32 →
    elem p kv ≠ [] ∧ Writes (fn p kv) p (elem p kv)

/-! ### A bucket -/

/-- The file when the elements `es` of a bucket have been written: their positions from
`offset`, the elements from `start`. -/
def bucketPart (elem : ℕ → HTKeyValue V → List UInt8) (b : List UInt8) (offset start : ℕ)
    (es : List (HTKeyValue V)) : List UInt8 :=
  writeAt (writeAt b offset ((elementPositions elem start es).flatMap onDisk)) start
    (elementsImage elem start es)

/-- One more element. -/
theorem bucketPart_snoc (elem : ℕ → HTKeyValue V → List UInt8) (b : List UInt8)
    {offset start : ℕ} (es : List (HTKeyValue V))
    (kv : HTKeyValue V) (hroom : offset + 4 * (es.length + 1) ≤ start) :
    bucketPart elem b offset start (es ++ [kv]) =
      writeAt (writeAt (bucketPart elem b offset start es) (offset + es.length * 4)
          (onDisk (⟨UInt32.ofNat (start + (elementsImage elem start es).length)⟩ :
            ElementPositionRec)))
        (start + (elementsImage elem start es).length)
        (elem (start + (elementsImage elem start es).length) kv) := by
  have hlen : ((elementPositions elem start es).flatMap onDisk).length = es.length * 4 := by
    rw [length_flatMap_onDisk, length_elementPositions]
    exact Nat.mul_comm 4 _
  have hrec : (onDisk (⟨UInt32.ofNat (start + (elementsImage elem start es).length)⟩ :
      ElementPositionRec)).length = 4 := length_onDisk _
  unfold bucketPart
  rw [← hlen, writeAt_grow (q := start) b _ _ (elementsImage elem start es) (by omega),
    writeAt_append, elementPositions_append, elementsImage_append, List.flatMap_append]
  simp [elementPositions, elementsImage]

/-- The loop of `WriteBucket` writes the elements that are left. -/
theorem writeElements_returns {li : LinkedList (HTKeyValue V)} {offset start : ℕ}
    (b : List UInt8) : ∀ (left done : List (Addr × HTKeyValue V)) (p : Ptr) (pos : ℕ),
    Repr li (done ++ left) → start = offset + 4 * (done ++ left).length →
    start + (elementsImage elem start ((done ++ left).map Prod.snd)).length < 2 ^ 32 →
    WritesElements fn elem (left.map Prod.snd) →
    ∃ pos', (writeElements fn li offset left.length done.length ⟨firstAddr left p⟩
        (4 * (done ++ left).length + (elementsImage elem start (done.map Prod.snd)).length)
        (start + (elementsImage elem start (done.map Prod.snd)).length)).Returns
      (quiet (bucketPart elem b offset start (done.map Prod.snd)) pos)
      (4 * (done ++ left).length +
        (elementsImage elem start ((done ++ left).map Prod.snd)).length)
      (quiet (bucketPart elem b offset start ((done ++ left).map Prod.snd)) pos')
  | [], done, p, pos, _, _, _, _ => by
    rw [List.append_nil]
    exact ⟨pos, rfl⟩
  | (a, kv) :: left, done, p, pos, hli, hstart, hfit, hfn => by
    have hdone : ((done ++ [(a, kv)]).map Prod.snd) = done.map Prod.snd ++ [kv] := by simp
    have hlen : (done.map Prod.snd).length = done.length := List.length_map ..
    have himage : elementsImage elem start (done.map Prod.snd ++ [kv]) =
        elementsImage elem start (done.map Prod.snd) ++
          elem (start + (elementsImage elem start (done.map Prod.snd)).length) kv := by
      rw [elementsImage_append]
      simp [elementsImage]
    have hcursor := hli
    rw [List.append_cons] at hli hstart hfit ⊢
    have hfit' := hfit
    rw [List.map_append, hdone, elementsImage_append, himage, List.length_append,
      List.length_append] at hfit'
    have hroom : offset + 4 * ((done.map Prod.snd).length + 1) ≤ start := by
      simp only [List.length_append, List.length_singleton] at hstart
      omega
    have hpart := bucketPart_snoc elem b (done.map Prod.snd) kv hroom
    generalize hnext : start + (elementsImage elem start (done.map Prod.snd)).length = next at *
    obtain ⟨hne, hwrites⟩ := hfn kv List.mem_cons_self next (by omega)
    obtain ⟨pos₁, hrun⟩ := hwrites (writeAt (bucketPart elem b offset start (done.map Prod.snd))
      (offset + done.length * 4) (onDisk (⟨UInt32.ofNat next⟩ : ElementPositionRec)))
      (offset + done.length * 4 + (onDisk (⟨UInt32.ofNat next⟩ : ElementPositionRec)).length)
    rw [hlen] at hpart
    rw [← hpart, ← hdone] at hrun
    obtain ⟨pos', hrest⟩ := writeElements_returns b left (done ++ [(a, kv)]) (some a) pos₁ hli
      hstart hfit fun e he => hfn e (List.mem_cons_of_mem _ he)
    refine ⟨pos', ?_⟩
    have himageLen : (elementsImage elem start ((done ++ [(a, kv)]).map Prod.snd)).length =
        (elementsImage elem start (done.map Prod.snd)).length + (elem next kv).length := by
      rw [hdone, himage, List.length_append]
    have hbucketlen : u32 (4 * (done ++ [(a, kv)] ++ left).length +
          (elementsImage elem start (done.map Prod.snd)).length + (elem next kv).length) =
        4 * (done ++ [(a, kv)] ++ left).length +
          (elementsImage elem start ((done ++ [(a, kv)]).map Prod.snd)).length := by
      rw [himageLen, u32_of_lt] <;> omega
    have hnextelpos : u32 (next + (elem next kv).length) =
        start + (elementsImage elem start ((done ++ [(a, kv)]).map Prod.snd)).length := by
      rw [himageLen, u32_of_lt] <;> omega
    have hj : (done ++ [(a, kv)]).length = done.length + 1 := by simp
    rw [← hbucketlen, ← hnextelpos, hj] at hrest
    have hget (f : IndexFile) :
        (llIteratorGetPayload li ⟨firstAddr ((a, kv) :: left) p⟩ : Run IndexFile _).Returns f
          kv f := by
      rw [firstAddr, llIteratorGetPayload_spec hcursor]
      rfl
    have hadvance (f : IndexFile) :
        (llIteratorNext li ⟨firstAddr ((a, kv) :: left) p⟩ : Run IndexFile _).Returns f
          (decide (left ≠ []), ⟨firstAddr left (some a)⟩) f := by
      rw [firstAddr, llIteratorNext_spec hcursor]
      rfl
    rw [List.length_cons, writeElements]
    exact seek_write (onDisk_ne_nil _) (.bind (hget _) (.bind hrun
      (.verify (decide_eq_true (List.length_pos_iff.mpr hne)) (.bind (hadvance _) hrest))))

/-- A bucket whose positions end where its elements start. -/
theorem bucketPart_eq (elem : ℕ → HTKeyValue V → List UInt8) (b : List UInt8) (offset : ℕ)
    (chain : List (HTKeyValue V)) :
    bucketPart elem b offset (offset + 4 * chain.length) chain =
      writeAt b offset (bucketImage elem offset chain) := by
  have hlen : ((elementPositions elem (offset + 4 * chain.length) chain).flatMap onDisk).length =
      4 * chain.length := by
    rw [length_flatMap_onDisk, length_elementPositions]
    rfl
  rw [bucketImage, ← writeAt_append, hlen, bucketPart]

/-- `WriteBucket` writes the bucket. -/
theorem writeBucket_writes {li : LinkedList (HTKeyValue V)} {cs : List (Addr × HTKeyValue V)}
    {offset : ℕ} (hli : Repr li cs) (hne : cs ≠ [])
    (hfn : WritesElements fn elem (cs.map Prod.snd))
    (hfit : offset + (bucketImage elem offset (cs.map Prod.snd)).length < 2 ^ 32) :
    Writes (writeBucket fn li offset) offset (bucketImage elem offset (cs.map Prod.snd)) := by
  intro b pos
  have hmake : (withMallocs (llMakeIterator li 0)).Returns (quiet b pos)
      (some ⟨firstAddr cs none⟩) (quiet b pos) := by
    obtain ⟨c, rest, rfl⟩ := List.exists_cons_of_ne_nil hne
    exact withMallocs_quiet (llMakeIterator_yields hli) b pos
  have hlen : (cs.map Prod.snd).length = cs.length := List.length_map ..
  have hpart := bucketPart_eq elem b offset (cs.map Prod.snd)
  rw [length_bucketImage, hlen] at hfit ⊢
  rw [hlen] at hpart
  obtain ⟨pos', hrun⟩ := writeElements_returns b cs [] none pos hli rfl (by
    simpa only [List.nil_append, Nat.add_assoc] using hfit) hfn
  refine ⟨pos', ?_⟩
  have hbucketlen : u32 (4 * cs.length) = 4 * cs.length := u32_of_lt (by omega)
  have hnextelpos : u32 (offset + 4 * cs.length) = offset + 4 * cs.length := u32_of_lt (by omega)
  rw [writeBucket, numElementsInLinkedList, hli.count, if_pos (List.length_pos_iff.mpr hne),
    hbucketlen, hnextelpos, ← hpart]
  refine .bind hmake ?_
  exact hrun

/-! ### The buckets -/

/-- The file when some buckets have been written: their records from `r`, the buckets
from `q`. -/
def bucketsPart (elem : ℕ → HTKeyValue V → List UInt8) (b : List UInt8) (r q : ℕ)
    (chains : List (List (HTKeyValue V))) : List UInt8 :=
  writeAt (writeAt b r (recsImage elem q chains)) q (bucketsImage elem q chains)

/-- One more bucket. -/
theorem bucketsPart_snoc (elem : ℕ → HTKeyValue V → List UInt8) (b : List UInt8) {r q : ℕ}
    (chains : List (List (HTKeyValue V)))
    (chain : List (HTKeyValue V)) (hroom : r + 8 * (chains.length + 1) ≤ q) :
    bucketsPart elem b r q (chains ++ [chain]) =
      writeAt (writeAt (bucketsPart elem b r q chains) (r + 8 * chains.length)
          (onDisk (⟨UInt32.ofNat chain.length,
            UInt32.ofNat (q + (bucketsImage elem q chains).length)⟩ : BucketRec)))
        (q + (bucketsImage elem q chains).length)
        (bucketImage elem (q + (bucketsImage elem q chains).length) chain) := by
  have hlen : (recsImage elem q chains).length = 8 * chains.length := length_recsImage q chains
  have hrec : (onDisk (⟨UInt32.ofNat chain.length,
      UInt32.ofNat (q + (bucketsImage elem q chains).length)⟩ : BucketRec)).length = 8 :=
    length_onDisk _
  unfold bucketsPart
  rw [← hlen, writeAt_grow (q := q) b _ _ (bucketsImage elem q chains) (by omega),
    writeAt_append, recsImage_append, bucketsImage_append]
  simp [recsImage, bucketsImage]

/-- The loop of `WriteHashTable` writes the buckets that are left. -/
theorem writeBuckets_returns {ht : HashTable V} {r q : ℕ} (b : List UInt8) :
    ∀ (left done : List (LinkedList (HTKeyValue V))) (pos : ℕ),
    ht.buckets = done ++ left → (∀ li ∈ left, li.WF) → q = r + 8 * (done ++ left).length →
    q + (bucketsImage elem q ((done ++ left).map LinkedList.toList)).length < 2 ^ 32 →
    (∀ li ∈ left, WritesElements fn elem li.toList) →
    ∃ pos', (writeBuckets fn ht left.length done.length (r + 8 * done.length)
        (q + (bucketsImage elem q (done.map LinkedList.toList)).length)).Returns
      (quiet (bucketsPart elem b r q (done.map LinkedList.toList)) pos)
      (q + (bucketsImage elem q ((done ++ left).map LinkedList.toList)).length)
      (quiet (bucketsPart elem b r q ((done ++ left).map LinkedList.toList)) pos')
  | [], done, pos, _, _, _, _, _ => by
    rw [List.append_nil]
    exact ⟨pos, rfl⟩
  | li :: left, done, pos, hht, hwf, hq, hfit, hfn => by
    have hdone : (done ++ [li]).map LinkedList.toList =
        done.map LinkedList.toList ++ [li.toList] := by simp
    have hlen : (done.map LinkedList.toList).length = done.length := List.length_map ..
    have hlast : (done ++ [li]).length = done.length + 1 := by simp
    have hget : ht.buckets[done.length]? = some li := by rw [hht]; simp
    have hli := hwf li List.mem_cons_self
    have hcount := hli.numElements_eq
    rw [List.append_cons] at hht hq hfit ⊢
    have hfit' := hfit
    rw [List.map_append, hdone, bucketsImage_append, List.length_append] at hfit'
    have hroom : r + 8 * ((done.map LinkedList.toList).length + 1) ≤ q := by
      rw [List.length_append, hlast] at hq
      omega
    have hpart := bucketsPart_snoc elem b (done.map LinkedList.toList) li.toList hroom
    generalize hnext : q + (bucketsImage elem q (done.map LinkedList.toList)).length = next at *
    have himage : (bucketsImage elem q (done.map LinkedList.toList ++ [li.toList])).length =
        (bucketsImage elem q (done.map LinkedList.toList)).length +
          (bucketImage elem next li.toList).length := by
      rw [bucketsImage_append, hnext, List.length_append]
      simp [bucketsImage]
    rw [himage] at hfit'
    obtain ⟨pos₁, hrec⟩ := writeBucketRecord_writes li (r + 8 * done.length) next
      (bucketsPart elem b r q (done.map LinkedList.toList)) pos
    rw [hcount, length_onDisk] at hrec
    rw [hlen] at hpart
    have hrest (pos₂ : ℕ) := writeBuckets_returns b left (done ++ [li]) pos₂ hht
      (fun l hl => hwf l (List.mem_cons_of_mem _ hl)) hq hfit
      fun l hl => hfn l (List.mem_cons_of_mem _ hl)
    have hrecOffset : u32 (r + 8 * done.length + 8) = r + 8 * (done ++ [li]).length := by
      rw [hlast, u32_of_lt] <;> omega
    have hbucketOffset : q + (bucketsImage elem q ((done ++ [li]).map LinkedList.toList)).length =
        next + (bucketImage elem next li.toList).length := by
      rw [hdone, himage, ← hnext, Nat.add_assoc]
    rw [hbucketOffset, ← hrecOffset, hdone, hpart, hlast] at hrest
    rw [List.length_cons, writeBuckets, bucketAt_of hget]
    by_cases hnil : li.toList = []
    · -- an empty bucket is not written
      rw [hnil] at hrest hrec hcount
      obtain ⟨pos', hrun⟩ := hrest pos₁
      refine ⟨pos', .bind rfl (.bind hrec (.verify rfl ?_))⟩
      rw [numElementsInLinkedList, hcount, if_neg (by simp)]
      exact hrun
    · have hpos := List.length_pos_iff.mpr hnil
      have himageLen := length_bucketImage elem next li.toList
      have hwrites : Writes (writeBucket fn li next) next (bucketImage elem next li.toList) :=
        writeBucket_writes hli (fun h => hnil (congrArg (List.map Prod.snd) h))
          (hfn li List.mem_cons_self) (show next + (bucketImage elem next li.toList).length < _ by
            omega)
      obtain ⟨pos₂, hbucket⟩ := hwrites (writeAt (bucketsPart elem b r q
        (done.map LinkedList.toList)) (r + 8 * done.length)
          (onDisk (⟨UInt32.ofNat li.toList.length, UInt32.ofNat next⟩ : BucketRec))) pos₁
      obtain ⟨pos', hrun⟩ := hrest pos₂
      have hbucketOffset' : u32 (next + (bucketImage elem next li.toList).length) =
          next + (bucketImage elem next li.toList).length := u32_of_lt (by omega)
      refine ⟨pos', .bind rfl (.bind hrec (.verify rfl ?_))⟩
      rw [numElementsInLinkedList, hcount, if_pos hpos]
      refine .bind hbucket (.verify (decide_eq_true (show _ ≠ 0 by omega)) ?_)
      rw [hbucketOffset']
      exact hrun

/-- `WriteHashTable` writes the table. -/
theorem writeHashTable_writes {ht : HashTable V} {offset : ℕ} (hht : ht.WF)
    (hfn : WritesElements fn elem ht.entries)
    (hfit : offset + (tableImage elem offset ht.chains).length < 2 ^ 32) :
    Writes (writeHashTable ht offset fn) offset (tableImage elem offset ht.chains) := by
  intro b pos
  have hchains : ht.chains.length = ht.numBuckets := by
    rw [hht.size]
    exact List.length_map ..
  have hheader : (onDisk (⟨UInt32.ofNat ht.numBuckets⟩ : BucketListHeader)).length = 4 :=
    length_onDisk _
  have himage : tableImage elem offset ht.chains =
      onDisk (⟨UInt32.ofNat ht.numBuckets⟩ : BucketListHeader) ++
        (recsImage elem (offset + 4 + 8 * ht.numBuckets) ht.chains ++
          bucketsImage elem (offset + 4 + 8 * ht.numBuckets) ht.chains) := by
    rw [tableImage, hchains]
  rw [length_tableImage, hchains] at hfit ⊢
  obtain ⟨pos', hrun⟩ := writeBuckets_returns (r := offset + 4)
    (writeAt b offset (onDisk (⟨UInt32.ofNat ht.numBuckets⟩ : BucketListHeader))) ht.buckets []
    (offset + (onDisk (⟨UInt32.ofNat ht.numBuckets⟩ : BucketListHeader)).length) rfl hht.chains
    rfl (by
      rw [List.nil_append, ← hht.size]
      exact (by omega : offset + 4 + 8 * ht.numBuckets +
        (bucketsImage elem (offset + 4 + 8 * ht.numBuckets) ht.chains).length < 2 ^ 32))
    fun li hli kv hkv => hfn kv (List.mem_flatMap.mpr ⟨li, hli, hkv⟩)
  refine ⟨pos', ?_⟩
  rw [writeHashTable, himage]
  dsimp only
  have hrec : u32 (offset + 4) = offset + 4 := u32_of_lt (by omega)
  have hbucket : u32 (offset + 4 + ht.numBuckets * 8) = offset + 4 + 8 * ht.numBuckets := by
    rw [u32_of_lt] <;> omega
  have hsize : u32Sub (offset + 4 + 8 * ht.numBuckets +
      (bucketsImage elem (offset + 4 + 8 * ht.numBuckets) ht.chains).length) offset =
      4 + (8 * ht.numBuckets +
        (bucketsImage elem (offset + 4 + 8 * ht.numBuckets) ht.chains).length) := by
    rw [u32Sub_of_le] <;> omega
  have hpart : bucketsPart elem (writeAt b offset (onDisk (⟨UInt32.ofNat ht.numBuckets⟩ :
        BucketListHeader))) (offset + 4) (offset + 4 + 8 * ht.numBuckets) ht.chains =
      writeAt b offset (onDisk (⟨UInt32.ofNat ht.numBuckets⟩ : BucketListHeader) ++
        (recsImage elem (offset + 4 + 8 * ht.numBuckets) ht.chains ++
          bucketsImage elem (offset + 4 + 8 * ht.numBuckets) ht.chains)) := by
    rw [← writeAt_append, hheader, ← writeAt_append, length_recsImage, hchains, bucketsPart]
  rw [hrec, hbucket, ← hpart, ← hsize]
  rw [List.nil_append, ← hht.size] at hrun
  exact seek_write (onDisk_ne_nil _) (.bind hrun (.pure _ _))

end Table

/-! ## Elements -/

/-- `WriteDocidDocnameFn` writes names that fit. -/
theorem writeDocidDocnameFn_writes {kvs : List (HTKeyValue CString)}
    (h : ∀ kv ∈ kvs, FitsLength kv.value) :
    WritesElements writeDocidDocnameFn docNameElem kvs := by
  intro kv hkv p hfit
  obtain ⟨hpos, hlt⟩ := h kv hkv
  have hslen : (UInt16.ofNat kv.value.bytes.length).toNat = kv.value.bytes.length :=
    UInt16.toNat_ofNat_of_lt' hlt
  refine ⟨List.append_ne_nil_of_left_ne_nil (onDisk_ne_nil _) _, fun b pos => ?_⟩
  apply Exists.intro
  rw [writeDocidDocnameFn, docNameElem, ← writeAt_append, List.length_append, length_onDisk,
    hslen, List.take_length]
  exact seek_write (onDisk_ne_nil _)
    (.bind (fwrite_quiet _ _ (List.length_pos_iff.mp hpos)) (.pure _ _))

/-- The loop of `WriteDocPositionListFn` writes the positions that are left. -/
theorem writePositions_returns {li : LinkedList UInt64} : ∀ (left done : List (Addr × UInt64))
    (p : Ptr) (b : List UInt8) (pos : ℕ), Repr li (done ++ left) →
    ∃ pos', (writePositions li left.length ⟨firstAddr left p⟩).Returns (quiet b pos) ()
      (quiet (writeAt b pos (((left.map Prod.snd).map diskPosition).flatMap onDisk)) pos')
  | [], _, _, _, pos, _ => ⟨pos, rfl⟩
  | (a, payload) :: left, done, p, b, pos, hli => by
    have hcursor := hli
    rw [List.append_cons] at hli
    obtain ⟨pos', hrest⟩ := writePositions_returns left (done ++ [(a, payload)]) (some a)
      (writeAt b pos (onDisk (diskPosition payload)))
      (pos + (onDisk (diskPosition payload)).length) hli
    refine ⟨pos', ?_⟩
    have hget (f : IndexFile) :
        (llIteratorGetPayload li ⟨firstAddr ((a, payload) :: left) p⟩ : Run IndexFile _).Returns f
          payload f := by
      rw [firstAddr, llIteratorGetPayload_spec hcursor]
      rfl
    have hadvance (f : IndexFile) :
        (llIteratorNext li ⟨firstAddr ((a, payload) :: left) p⟩ : Run IndexFile _).Returns f
          (decide (left ≠ []), ⟨firstAddr left (some a)⟩) f := by
      rw [firstAddr, llIteratorNext_spec hcursor]
      rfl
    rw [writeAt_append] at hrest
    exact .bind (hget _) (.bind (fwrite_quiet b pos (onDisk_ne_nil _)) (.bind (hadvance _) hrest))

/-- `WriteDocPositionListFn` writes posting lists. -/
theorem writeDocPositionListFn_writes {kvs : List (HTKeyValue (LinkedList UInt64))}
    (h : ∀ kv ∈ kvs, kv.value.WF ∧ kv.value.toList ≠ []) :
    WritesElements writeDocPositionListFn postingElem kvs := by
  intro kv hkv p hfit
  obtain ⟨hwf, hne⟩ := h kv hkv
  refine ⟨List.append_ne_nil_of_left_ne_nil (onDisk_ne_nil _) _, fun b pos => ?_⟩
  have hcount := hwf.numElements_eq
  have hcells : kv.value.cells ≠ [] := fun h => hne (congrArg (List.map Prod.snd) h)
  have hmake (b : List UInt8) (pos : ℕ) : (withMallocs (llMakeIterator kv.value 0)).Returns
      (quiet b pos) (some ⟨firstAddr kv.value.cells none⟩) (quiet b pos) := by
    have hrepr : Repr kv.value kv.value.cells := hwf
    obtain ⟨c, cs, hcons⟩ := List.exists_cons_of_ne_nil hcells
    rw [hcons] at hrepr ⊢
    exact withMallocs_quiet (llMakeIterator_yields hrepr) b pos
  have hlenCells : kv.value.cells.length = kv.value.toList.length := (List.length_map ..).symm
  have hpositions : (kv.value.cells.map Prod.snd).map diskPosition =
    kv.value.toList.map diskPosition := rfl
  obtain ⟨pos', hrun⟩ := writePositions_returns kv.value.cells [] none (writeAt b p
    (onDisk (⟨kv.key, UInt32.ofNat kv.value.toList.length⟩ : DocidElementHeader)))
    (p + (onDisk (⟨kv.key, UInt32.ofNat kv.value.toList.length⟩ : DocidElementHeader)).length) hwf
  have hlen : (postingElem p kv).length = 12 + kv.value.toList.length * 4 := by
    rw [postingElem, List.length_append, length_onDisk, length_flatMap_onDisk, List.length_map,
      Nat.mul_comm]
    rfl
  refine ⟨pos', ?_⟩
  rw [hlen] at hfit ⊢
  rw [hpositions, writeAt_append, hlenCells] at hrun
  rw [writeDocPositionListFn, numElementsInLinkedList, hcount, postingElem,
    u32_of_lt (show 12 + kv.value.toList.length * 4 < 2 ^ 32 by omega)]
  exact seek_write (onDisk_ne_nil _) (.bind (hmake _ _) (.bind hrun (.pure _ _)))

/-- `WriteWordDocSetFn` writes words with their documents: the documents first, then what
stands before them. -/
theorem writeWordDocSetFn_writes {records : Arena WordDocSet} {kvs : List (HTKeyValue Addr)}
    (h : ∀ kv ∈ kvs, ∃ wds, records.read kv.value = some wds ∧ FitsLength wds.word ∧
      wds.docIDs.WF ∧ ∀ e ∈ wds.docIDs.entries, e.value.WF ∧ e.value.toList ≠ []) :
    WritesElements (writeWordDocSetFn records) (wordElem records) kvs := by
  intro kv hkv p hfit
  obtain ⟨wds, hread, ⟨hpos, hlt⟩, hwf, hlists⟩ := h kv hkv
  have himage : wordElem records p kv = wordDocSetImage p wds := by rw [wordElem, hread]
  have hwordlen : (UInt16.ofNat wds.word.bytes.length).toNat = wds.word.bytes.length :=
    UInt16.toNat_ofNat_of_lt' hlt
  have hverify : decide (0 < UInt16.ofNat wds.word.bytes.length) = true := by
    rw [decide_eq_true_iff, UInt16.lt_iff_toNat_lt, hwordlen]
    exact hpos
  rw [himage] at hfit ⊢
  have hlen : (wordDocSetImage p wds).length = 6 + wds.word.bytes.length +
      (tableImage postingElem (p + 6 + wds.word.bytes.length) wds.docIDs.chains).length := by
    rw [wordDocSetImage, List.length_append, List.length_append, length_onDisk]
    exact (Nat.add_assoc 6 _ _).symm
  refine ⟨List.append_ne_nil_of_left_ne_nil (onDisk_ne_nil _) _, fun b pos => ?_⟩
  rw [hlen] at hfit ⊢
  obtain ⟨pos₁, htable⟩ := writeHashTable_writes hwf (writeDocPositionListFn_writes hlists)
    (show p + 6 + wds.word.bytes.length + _ < 2 ^ 32 by omega) b pos
  have hoffset : u32 (p + 6 + wds.word.bytes.length) = p + 6 + wds.word.bytes.length :=
    u32_of_lt (by omega)
  have hsize : u32 (6 + wds.word.bytes.length +
      (tableImage postingElem (p + 6 + wds.word.bytes.length) wds.docIDs.chains).length) =
      6 + wds.word.bytes.length +
        (tableImage postingElem (p + 6 + wds.word.bytes.length) wds.docIDs.chains).length :=
    u32_of_lt (by omega)
  rw [writeWordDocSetFn, deref_some hread, Run.pure_bind, wordDocSetImage]
  dsimp only
  rw [hwordlen, hoffset, List.take_length]
  generalize tableImage postingElem (p + 6 + wds.word.bytes.length) wds.docIDs.chains = table at *
  -- the table stands behind the word, so it may as well be written after it
  have hpart (header : List UInt8) (hheader : header.length = 6) :
      writeAt b p (header ++ (wds.word.bytes ++ table)) =
        writeAt (writeAt (writeAt b (p + 6 + wds.word.bytes.length) table) p header)
          (p + header.length) wds.word.bytes := by
    rw [writeAt_append, writeAt_comm _ _ (by rw [List.length_append]; omega),
      ← List.append_assoc header, ← writeAt_append b p (header ++ wds.word.bytes),
      List.length_append, hheader, Nat.add_assoc]
  rw [hpart _ (length_onDisk _), ← hsize]
  apply Exists.intro
  exact .verify hverify (.bind htable (seek_write (onDisk_ne_nil _)
    (.bind (fwrite_quiet _ _ (List.length_pos_iff.mp hpos)) (.pure _ _))))

/-! ## The file -/

section File

variable {mi : MemIndex} {dt : DocTable}

theorem writeDocTable_writes (h : FitsFormat mi dt) :
    Writes (writeDocTable dt 16) 16 (docTableImage dt) :=
  writeHashTable_writes h.docs (writeDocidDocnameFn_writes h.names) h.docTable_at.fits

theorem writeMemIndex_writes (h : FitsFormat mi dt) :
    Writes (writeMemIndex mi (16 + (docTableImage dt).length)) (16 + (docTableImage dt).length)
      (indexTableImage mi dt) := by
  refine writeHashTable_writes h.index.records.table (writeWordDocSetFn_writes fun kv hkv => ?_)
    h.indexTable_at.fits
  obtain ⟨set, hread⟩ := Option.isSome_iff_exists.mp (h.index.records.live kv hkv)
  have hget : mi.get? kv.key = some set :=
    (mi.get?_of_mem h.index.records.table hkv).trans hread
  exact ⟨set, hread, h.words _ _ hget, h.index.docIDs _ _ hget, h.index.lists _ _ hget⟩

theorem freadByte_quiet {b : List UInt8} {pos : ℕ} {c : UInt8} (h : b[pos]? = some c) :
    freadByte.Returns (quiet b pos) (some c) (quiet b (pos + 1)) := by
  simp [Run.Returns, freadByte, ioVerdict, quiet, Run.bind_apply, h]

/-- The loop of `WriteHeader` runs over the bytes that are left. -/
theorem foldFile_returns : ∀ {left b : List UInt8} {pos : ℕ} (crc : UInt32), BytesAt b pos left →
    (foldFile left.length crc).Returns (quiet b pos) (left.foldl foldByteIntoCRC crc)
      (quiet b (pos + left.length))
  | [], _, _, _, _ => rfl
  | c :: left, b, pos, crc, h => by
    have hloop := foldFile_returns (foldByteIntoCRC crc c) (BytesAt.tail h)
    rw [Nat.add_assoc, Nat.add_comm 1] at hloop
    exact .bind (freadByte_quiet (BytesAt.head h)) hloop

/-- `WriteHeader` completes a file with two tables. -/
theorem writeHeader_fileOf {docs index : List UInt8}
    (hsize : 16 + (docs.length + index.length) < 2 ^ 32) (pos : ℕ) : ∃ pos',
    (writeHeader docs.length index.length).Returns (quiet (writeAt [] 16 (docs ++ index)) pos) 16
      (quiet (fileOf docs index) pos') := by
  have hcslen : u32 (docs.length + index.length) = (docs ++ index).length := by
    rw [List.length_append, u32_of_lt]
    omega
  have hloop := foldFile_returns crcInit (bytesAt_writeAt [] 16 (docs ++ index))
  have hfile : writeAt (writeAt [] 16 (docs ++ index)) 0 (onDisk (headerOf docs index)) =
      fileOf docs index := by
    have hlen : (onDisk (headerOf docs index)).length = 16 := length_onDisk _
    have hmerge := writeAt_append [] 0 (onDisk (headerOf docs index)) (docs ++ index)
    rw [hlen, Nat.zero_add,
      writeAt_empty (onDisk (headerOf docs index) ++ (docs ++ index))] at hmerge
    rw [writeAt_comm _ _ (by rw [hlen]), hmerge, fileOf]
  rw [writeHeader, hcslen, ← hfile]
  apply Exists.intro
  exact .bind (fseek_quiet _ _ 16) (.bind hloop (seek_write (onDisk_ne_nil _)
    (.bind rfl (.verify rfl (.pure _ _)))))

/-- `WriteHeader` completes the file. -/
theorem writeHeader_returns (h : FitsFormat mi dt) (pos : ℕ) : ∃ pos',
    (writeHeader (docTableImage dt).length (indexTableImage mi dt).length).Returns
      (quiet (writeAt [] 16 (tablesImage mi dt)) pos) 16 (quiet (fileImage mi dt) pos') :=
  writeHeader_fileOf h.fits pos

/-- When no call fails, `WriteIndex` leaves the file with the two tables that are written. -/
theorem writeIndex_fileOf {docs index : List UInt8} (hdocs : Writes (writeDocTable dt 16) 16 docs)
    (hindex : Writes (writeMemIndex mi (16 + docs.length)) (16 + docs.length) index)
    (hne : docs.length ≠ 0) (hsize : 16 + (docs.length + index.length) < 2 ^ 32) {f : IndexFile}
    (hio : f.verdicts = []) (hmallocs : f.mallocs = []) :
    ∃ pos, (writeIndex mi dt).Returns f (fileOf docs index).length
      (quiet (fileOf docs index) pos) := by
  obtain ⟨linked, content, pos, verdicts, mallocs⟩ := f
  obtain rfl : verdicts = [] := hio
  obtain rfl : mallocs = [] := hmallocs
  have hopen : fopen.Returns ⟨linked, content, pos, [], []⟩ true (quiet [] 0) := rfl
  obtain ⟨pos₁, hdoc⟩ := hdocs [] 0
  obtain ⟨pos₂, hmemidx⟩ := hindex (writeAt [] 16 docs) pos₁
  rw [writeAt_append] at hmemidx
  obtain ⟨pos₃, hheader⟩ := writeHeader_fileOf hsize pos₂
  have hoffset : u32 (16 + docs.length) = 16 + docs.length := u32_of_lt (by omega)
  have htables : u32 (docs.length + index.length) = docs.length + index.length :=
    u32_of_lt (by omega)
  have htotal : u32 (docs.length + index.length + 16) = (fileOf docs index).length := by
    rw [length_fileOf, u32_of_lt] <;> omega
  refine ⟨pos₃, .bind hopen (.bind hdoc ?_)⟩
  rw [if_neg hne]
  dsimp only
  rw [hoffset]
  refine .bind hmemidx ?_
  rw [if_neg hne, htables]
  refine .bind hheader ?_
  rw [if_neg (not_not.mpr rfl), htotal]
  rfl

theorem length_docTableImage_ne (dt : DocTable) : (docTableImage dt).length ≠ 0 := by
  rw [docTableImage, length_tableImage]
  omega

/-- When no call fails, `WriteIndex` leaves the image of the index. -/
theorem writeIndex_returns (h : FitsFormat mi dt) {f : IndexFile} (hio : f.verdicts = [])
    (hmallocs : f.mallocs = []) : ∃ pos, (writeIndex mi dt).Returns f (fileImage mi dt).length
      (quiet (fileImage mi dt) pos) :=
  writeIndex_fileOf (writeDocTable_writes h) (writeMemIndex_writes h) (length_docTableImage_ne dt)
    h.fits hio hmallocs

end File

end MultithreadedWebServer
