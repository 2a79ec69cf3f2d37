import MultithreadedWebServer.IndexFsck
import MultithreadedWebServer.ReaderSafety

/-!
# What stands in a file that the checker approves

`Ensures m P` is a postcondition of a function of the checker: what has been printed stays,
and when nothing of it reports a mismatch, the result satisfies `P`. There is one rule for
each way to put functions together, and one lemma for each function. From the records that
the checker reads field by field the lemmas make the structs that the readers read.
-/

namespace MultithreadedWebServer

/-! ## Postconditions of the checker -/

/-- No line reports a mismatch. -/
def Clean (out : List Line) : Prop := ∀ line ∈ out, line.isMismatch = false

theorem Clean.mono {out out' : List Line} (h : Clean out') (hfront : out <+: out') :
    Clean out := fun line hline => h line (hfront.subset hline)

/-- The function only adds lines, and if there is no mismatch at its end, its result
satisfies `P`. -/
def Ensures {α : Type} (m : Checker α) (P : α → Prop) : Prop :=
  ∀ out a out', m out = .ok (a, out') → out <+: out' ∧ (Clean out' → P a)

section Rules

variable {α β : Type} {m : Checker α} {f : α → Checker β} {P : α → Prop} {Q : β → Prop}

theorem Ensures.pure {a : α} (h : P a) : Ensures (pure a : Checker α) P := by
  rintro out a' out' hrun
  have hresult : (a, out) = (a', out') := Except.ok.inj hrun
  obtain ⟨rfl, rfl⟩ := Prod.mk.inj hresult
  exact ⟨List.prefix_refl out, fun _ => h⟩

/-- Nothing is said of a function that dies. -/
theorem ensures_throw (e : CheckerStop) : Ensures (throw e : Checker α) P := by
  intro out a out' hrun
  cases hrun

theorem Ensures.mono {P' : α → Prop} (h : Ensures m P) (hP : ∀ a, P a → P' a) : Ensures m P' :=
  fun out a out' hrun => ⟨(h out a out' hrun).1, fun hclean => hP a ((h out a out' hrun).2 hclean)⟩

/-- One after the other: the second may use what the first ensures, since the lines of the
first are lines of both. -/
theorem Ensures.bind (hm : Ensures m P) (hf : ∀ a, Ensures (f a) fun b => P a → Q b) :
    Ensures (m >>= f) Q := by
  intro out b out' hrun
  have hbind : (m >>= f) out = (m out >>= fun p => f p.1 p.2) := rfl
  rw [hbind] at hrun
  cases hfirst : m out with
  | error e =>
    rw [hfirst] at hrun
    cases hrun
  | ok p =>
    obtain ⟨a, mid⟩ := p
    rw [hfirst] at hrun
    obtain ⟨hfront, hP⟩ := hm out a mid hfirst
    obtain ⟨hmore, hQ⟩ := hf a mid b out' hrun
    exact ⟨hfront.trans hmore, fun hclean => hQ hclean (hP (hclean.mono hmore))⟩

theorem ensures_print (line : Line) : Ensures (print line) fun _ => True := by
  intro out a out' hrun
  have hresult : ((), out ++ [line]) = (a, out') := Except.ok.inj hrun
  obtain ⟨-, rfl⟩ := Prod.mk.inj hresult
  exact ⟨List.prefix_append out [line], fun _ => trivial⟩

/-- A line that reports a mismatch ensures whatever is asked. -/
theorem ensures_print_mismatch {R : Unit → Prop} (text : String) :
    Ensures (print (.mismatch text)) R := by
  intro out a out' hrun
  have hresult : ((), out ++ [Line.mismatch text]) = (a, out') := Except.ok.inj hrun
  obtain ⟨-, rfl⟩ := Prod.mk.inj hresult
  refine ⟨List.prefix_append out _, fun hclean => ?_⟩
  cases hclean (.mismatch text) (List.mem_append_right out List.mem_cons_self)

theorem ensures_checkEQ (ntoh : ℕ → ℕ) (name fieldname : String) (expected actual : ℕ) :
    Ensures (checkEQ ntoh name expected actual fieldname) fun _ => expected = actual := by
  rw [checkEQ]
  split
  · exact .pure (by assumption)
  · dsimp only
    split
    · exact ensures_print_mismatch _
    · exact ensures_print_mismatch _

theorem ensures_checkLT (ntoh : ℕ → ℕ) (name phrase fieldname : String) (smaller bigger : ℕ) :
    Ensures (checkLT ntoh name phrase smaller bigger fieldname) fun _ => smaller < bigger := by
  rw [checkLT]
  split
  · exact .pure (by assumption)
  · dsimp only
    split
    · exact ensures_print_mismatch _
    · exact ensures_print_mismatch _

end Rules

/-! ## Fields and structs -/

section Fields

variable {file : List UInt8} {pos n o w : ℕ} {bytes : List UInt8}

theorem readAt_eq_some_iff :
    readAt file pos n = some bytes ↔ pos + n ≤ file.length ∧ bytes = (file.drop pos).take n := by
  rw [readAt]
  split
  · rename_i hle
    exact ⟨fun h => ⟨hle, (Option.some.inj h).symm⟩, fun h => congrArg some h.2.symm⟩
  · rename_i hle
    exact ⟨fun h => absurd h.symm (Option.some_ne_none bytes), fun h => absurd h.1 hle⟩

theorem length_of_readAt (h : readAt file pos n = some bytes) : bytes.length = n := by
  obtain ⟨hle, rfl⟩ := readAt_eq_some_iff.mp h
  rw [List.length_take, List.length_drop]
  omega

/-- A part of what was read. -/
theorem readAt_part (h : readAt file pos n = some bytes) (hpart : o + w ≤ n) :
    readAt file (pos + o) w = some ((bytes.drop o).take w) := by
  obtain ⟨hle, rfl⟩ := readAt_eq_some_iff.mp h
  refine readAt_eq_some_iff.mpr ⟨by omega, ?_⟩
  rw [List.drop_take, List.drop_drop, List.take_take, Nat.min_eq_left (by omega)]

/-- The last part can be read only if the whole can. -/
theorem readAt_whole (h : readAt file (pos + o) w = some bytes) (hpart : o + w = n) :
    ∃ whole, readAt file pos n = some whole :=
  ⟨_, readAt_eq_some_iff.mpr ⟨by have := (readAt_eq_some_iff.mp h).1; omega, rfl⟩⟩

/-- A `uint16_t` in network order. -/
def net16 (file : List UInt8) (pos : ℕ) : Option UInt16 :=
  (readAt file pos 2).map fun bytes => ntohs (UInt16.ofNat (leValue bytes))

/-- A `uint32_t` in network order. -/
def net32 (file : List UInt8) (pos : ℕ) : Option UInt32 :=
  (readAt file pos 4).map fun bytes => ntohl (UInt32.ofNat (leValue bytes))

/-- A `uint64_t` in network order. -/
def net64 (file : List UInt8) (pos : ℕ) : Option UInt64 :=
  (readAt file pos 8).map fun bytes => ntohll (UInt64.ofNat (leValue bytes))

theorem net16_field (h : readAt file pos n = some bytes) (hpart : o + 2 ≤ n) :
    net16 file (pos + o) = some (ntohs (UInt16.ofNat (field o 2 bytes))) := by
  rw [net16, readAt_part h hpart]
  rfl

theorem net32_field (h : readAt file pos n = some bytes) (hpart : o + 4 ≤ n) :
    net32 file (pos + o) = some (ntohl (UInt32.ofNat (field o 4 bytes))) := by
  rw [net32, readAt_part h hpart]
  rfl

theorem net64_field (h : readAt file pos n = some bytes) (hpart : o + 8 ≤ n) :
    net64 file (pos + o) = some (ntohll (UInt64.ofNat (field o 8 bytes))) := by
  rw [net64, readAt_part h hpart]
  rfl

theorem recordAt_of_readAt {α : Type} [DiskStruct α]
    (h : readAt file pos (DiskStruct.size α) = some bytes) :
    recordAt α file pos = some (ofDisk bytes) := by
  rw [recordAt, h]
  rfl

theorem readAt_of_net16 {x : UInt16} (h : net16 file pos = some x) :
    ∃ bytes, readAt file pos 2 = some bytes := by
  obtain ⟨bytes, hread, -⟩ := Option.map_eq_some_iff.mp h
  exact ⟨bytes, hread⟩

theorem readAt_of_net32 {x : UInt32} (h : net32 file pos = some x) :
    ∃ bytes, readAt file pos 4 = some bytes := by
  obtain ⟨bytes, hread, -⟩ := Option.map_eq_some_iff.mp h
  exact ⟨bytes, hread⟩

/-- The three structs that have one field of 32 bits. -/
theorem recordAt_of_net32 {α : Type} [DiskStruct α] {mk : UInt32 → α} {x : UInt32}
    (hsize : DiskStruct.size α = 4)
    (hmk : ∀ bytes, (ofDisk bytes : α) = mk (ntohl (UInt32.ofNat (field 0 4 bytes))))
    (h : net32 file pos = some x) : recordAt α file pos = some (mk x) := by
  obtain ⟨bytes, hread⟩ := readAt_of_net32 h
  obtain rfl := Option.some.inj (h.symm.trans (net32_field (o := 0) hread (Nat.le_refl 4)))
  rw [← hsize] at hread
  rw [recordAt_of_readAt hread, hmk]

theorem recordAt_bucketRec {x y : UInt32} (hx : net32 file pos = some x)
    (hy : net32 file (pos + 4) = some y) : recordAt BucketRec file pos = some ⟨x, y⟩ := by
  obtain ⟨last, hlast⟩ := readAt_of_net32 hy
  obtain ⟨bytes, hread⟩ := readAt_whole (n := 8) hlast rfl
  obtain rfl := Option.some.inj (hx.symm.trans (net32_field (o := 0) hread (by decide)))
  obtain rfl := Option.some.inj (hy.symm.trans (net32_field hread (by decide)))
  exact recordAt_of_readAt hread

theorem recordAt_doctableElementHeader {x : UInt64} {y : UInt16} (hx : net64 file pos = some x)
    (hy : net16 file (pos + 8) = some y) :
    recordAt DoctableElementHeader file pos = some ⟨x, y⟩ := by
  obtain ⟨last, hlast⟩ := readAt_of_net16 hy
  obtain ⟨bytes, hread⟩ := readAt_whole (n := 10) hlast rfl
  obtain rfl := Option.some.inj (hx.symm.trans (net64_field (o := 0) hread (by decide)))
  obtain rfl := Option.some.inj (hy.symm.trans (net16_field hread (by decide)))
  exact recordAt_of_readAt hread

theorem recordAt_worddocsetHeader {x : UInt16} {y : UInt32} (hx : net16 file pos = some x)
    (hy : net32 file (pos + 2) = some y) : recordAt WorddocsetHeader file pos = some ⟨x, y⟩ := by
  obtain ⟨last, hlast⟩ := readAt_of_net32 hy
  obtain ⟨bytes, hread⟩ := readAt_whole (n := 6) hlast rfl
  obtain rfl := Option.some.inj (hx.symm.trans (net16_field (o := 0) hread (by decide)))
  obtain rfl := Option.some.inj (hy.symm.trans (net32_field hread (by decide)))
  exact recordAt_of_readAt hread

theorem recordAt_docidElementHeader {x : UInt64} {y : UInt32} (hx : net64 file pos = some x)
    (hy : net32 file (pos + 8) = some y) :
    recordAt DocidElementHeader file pos = some ⟨x, y⟩ := by
  obtain ⟨last, hlast⟩ := readAt_of_net32 hy
  obtain ⟨bytes, hread⟩ := readAt_whole (n := 12) hlast rfl
  obtain rfl := Option.some.inj (hx.symm.trans (net64_field (o := 0) hread (by decide)))
  obtain rfl := Option.some.inj (hy.symm.trans (net32_field hread (by decide)))
  exact recordAt_of_readAt hread

theorem recordAt_indexFileHeader {m c d i : UInt32} (hm : net32 file 0 = some m)
    (hc : net32 file 4 = some c) (hd : net32 file 8 = some d) (hi : net32 file 12 = some i) :
    recordAt IndexFileHeader file 0 = some ⟨m, c, d, i⟩ := by
  obtain ⟨last, hlast⟩ := readAt_of_net32 hi
  rw [← Nat.zero_add 12] at hlast
  obtain ⟨bytes, hread⟩ := readAt_whole (n := 16) hlast rfl
  obtain rfl := Option.some.inj (hm.symm.trans (net32_field (o := 0) hread (by decide)))
  obtain rfl := Option.some.inj (hc.symm.trans (net32_field (o := 4) hread (by decide)))
  obtain rfl := Option.some.inj (hd.symm.trans (net32_field (o := 8) hread (by decide)))
  obtain rfl := Option.some.inj (hi.symm.trans (net32_field (o := 12) hread (by decide)))
  exact recordAt_of_readAt hread

/-! ## Reading -/

theorem ensures_assertRead (file : List UInt8) (pos n : ℕ) :
    Ensures (assertRead file pos n) fun bytes => 0 < n ∧ readAt file pos n = some bytes := by
  rw [assertRead]
  split
  · exact ensures_throw _
  · rename_i hn
    cases hread : readAt file pos n with
    | none => exact ensures_throw _
    | some bytes => exact .pure ⟨Nat.pos_of_ne_zero hn, rfl⟩

theorem ensures_fread16 (file : List UInt8) (pos : ℕ) :
    Ensures (fread16 file pos) fun n => ∃ x, net16 file pos = some x ∧ n = x.toNat :=
  (ensures_assertRead file pos 2).bind fun _ => .pure fun ⟨_, hread⟩ =>
    ⟨_, congrArg (Option.map _) hread, rfl⟩

theorem ensures_fread32 (file : List UInt8) (pos : ℕ) :
    Ensures (fread32 file pos) fun n => ∃ x, net32 file pos = some x ∧ n = x.toNat :=
  (ensures_assertRead file pos 4).bind fun _ => .pure fun ⟨_, hread⟩ =>
    ⟨_, congrArg (Option.map _) hread, rfl⟩

theorem ensures_fread64 (file : List UInt8) (pos : ℕ) :
    Ensures (fread64 file pos) fun n => ∃ x, net64 file pos = some x ∧ n = x.toNat :=
  (ensures_assertRead file pos 8).bind fun _ => .pure fun ⟨_, hread⟩ =>
    ⟨_, congrArg (Option.map _) hread, rfl⟩

end Fields

/-! ## Tables -/

/-- The elements of a chain are where the chain says, and each is what `E` says. -/
def ChainHolds (E : ℕ → Prop) (file : List UInt8) (bRec : BucketRec) : Prop :=
  ∀ j < bRec.chainLen.toNat, ∃ ep, positionAt file bRec j = some ep ∧ E ep.elementPosition.toNat

/-- A bucket is in the file, with a chain of elements as `E` says. -/
def BucketHolds (E : ℕ → ℕ → Prop) (file : List UInt8) (offset i : ℕ) : Prop :=
  ∃ bRec, bucketRecAt file offset i = some bRec ∧ ChainHolds (fun pos => E pos i) file bRec

/-- A table is in the file, with elements as `E` says. The arguments of `E` are those of
`CheckElement`. -/
def TableHolds (E : ℕ → ℕ → ℕ → Prop) (file : List UInt8) (offset : ℕ) : Prop :=
  ∃ header, recordAt BucketListHeader file offset = some header ∧
    ∀ i < header.numBuckets.toNat, BucketHolds (E header.numBuckets.toNat) file offset i

section Table

variable {E : ℕ → ℕ → ℕ → Prop} {checkElement : CheckElement} {c : HashTableChecker}
  {numBuckets tableEnd : ℕ}

/-- A number that can be read in a small file does not end behind 32 bits. -/
theorem add_lt_of_net32 {file : List UInt8} {pos : ℕ} {x : UInt32} (h : net32 file pos = some x)
    (hsize : file.length < 2 ^ 32) : pos + 4 < 2 ^ 32 := by
  obtain ⟨bytes, hread⟩ := readAt_of_net32 h
  have hle := (readAt_eq_some_iff.mp hread).1
  omega

/-- The inner loop has read the positions at which `GetDocIDList` and the lookups look: there
is no wrap between them. -/
theorem ensures_checkChain {curBucket i : ℕ} (hsize : c.file.length < 2 ^ 32)
    (helem : ∀ pos, Ensures (checkElement numBuckets pos i) fun _ => E numBuckets pos i) :
    ∀ left j, Ensures (checkChain checkElement c numBuckets tableEnd curBucket i left j)
      fun _ => curBucket + j * 4 < 2 ^ 32 → ∀ k < left, ∃ ep,
        recordAt ElementPositionRec c.file (curBucket + (j + k) * 4) = some ep ∧
          E numBuckets ep.elementPosition.toNat i
  | 0, j => .pure fun _ k hk => absurd hk (Nat.not_lt_zero k)
  | left + 1, j => by
    rw [checkChain]
    refine (ensures_fread32 c.file _).bind fun elementPos => (ensures_checkLT _ _ _ _ _ _).bind
      fun _ => (helem elementPos).bind fun _ =>
        (ensures_checkChain hsize helem left (j + 1)).mono ?_
    rintro _ hrest helement - ⟨x, hread, rfl⟩ hlt
    rw [u32_of_lt hlt] at hread
    have hnext : curBucket + (j + 1) * 4 < 2 ^ 32 := by
      have hend := add_lt_of_net32 hread hsize
      omega
    rw [forall_lt_succ (p := fun k => ∃ ep, recordAt ElementPositionRec c.file
      (curBucket + k * 4) = some ep ∧ E numBuckets ep.elementPosition.toNat i)]
    exact ⟨⟨⟨x⟩, recordAt_of_net32 rfl (fun _ => rfl) hread, helement⟩, hrest hnext⟩

/-- The outer loop has read the records of the buckets. What it compares them with says
nothing of the elements. -/
theorem ensures_checkBuckets (hsize : c.file.length < 2 ^ 32)
    (helem : ∀ pos i, Ensures (checkElement numBuckets pos i) fun _ => E numBuckets pos i) :
    ∀ left i prevBucket, Ensures (checkBuckets checkElement c numBuckets tableEnd left i prevBucket)
      fun _ => ∀ k < left, BucketHolds (E numBuckets) c.file c.offset (i + k)
  | 0, _, _ => .pure fun k hk => absurd hk (Nat.not_lt_zero k)
  | left + 1, i, prevBucket => by
    rw [checkBuckets]
    refine (ensures_fread32 c.file _).bind fun curChainLen => (ensures_fread32 c.file _).bind
      fun curBucket => Ensures.bind (P := fun _ => True) ?_ fun prev =>
        (ensures_checkLT _ _ _ _ _ _).bind fun _ =>
          (ensures_checkChain hsize (fun pos => helem pos i) curChainLen 0).bind fun _ =>
            (ensures_checkBuckets hsize helem left (i + 1) prev).mono ?_
    · cases prevBucket with
      | some prev =>
        dsimp only
        split
        · exact (ensures_checkLT _ _ _ _ _ _).bind fun _ => .pure fun _ => trivial
        · exact .pure trivial
      | none =>
        dsimp only
        split
        · exact (ensures_fread32 c.file _).bind fun _ => (ensures_fread32 c.file _).bind fun _ =>
            (ensures_checkEQ _ _ _ _ _).bind fun _ => .pure fun _ _ _ => trivial
        · exact .pure trivial
    · rintro _ hrest hchain - - ⟨curBucket, hposition, rfl⟩ ⟨curChainLen, hlen, rfl⟩
      rw [forall_lt_succ (p := fun k => BucketHolds (E numBuckets) c.file c.offset k)]
      refine ⟨⟨⟨curChainLen, curBucket⟩, ?_, fun j hj => ?_⟩, hrest⟩
      · rw [bucketRecAt, Nat.mul_comm i 8]
        exact recordAt_bucketRec hlen hposition
      · have hlt : curBucket.toNat + 0 * 4 < 2 ^ 32 := curBucket.toNat_lt
        have hj := hchain hlt j hj
        rwa [Nat.zero_add] at hj

theorem ensures_check (hsize : c.file.length < 2 ^ 32)
    (helem : ∀ n pos i, Ensures (checkElement n pos i) fun _ => E n pos i) (offset len : ℕ) :
    Ensures (check checkElement c offset len) fun _ => TableHolds E c.file c.offset := by
  rw [check]
  refine (ensures_fread32 c.file _).bind fun numBuckets => (ensures_checkLT _ _ _ _ _ _).bind
    fun _ => (ensures_checkBuckets hsize (helem numBuckets) numBuckets 0 none).mono ?_
  rintro _ hbuckets - ⟨x, hread, rfl⟩
  refine ⟨⟨x⟩, recordAt_of_net32 rfl (fun _ => rfl) hread, fun i hi => ?_⟩
  have hi := hbuckets i hi
  rwa [Nat.zero_add] at hi

end Table

end MultithreadedWebServer
