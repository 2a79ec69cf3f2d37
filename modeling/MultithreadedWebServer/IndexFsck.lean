import MultithreadedWebServer.IndexChecker
import MultithreadedWebServer.IndexRoundTrip

/-!
# Tables that the checker accepts

`Passes m a` says that `m` returns `a`, whatever has been printed before, and prints no
mismatch. A table passes when its elements do: the records of its buckets are in the order
in which the checker wants them, with the records of empty buckets in between.
-/

namespace MultithreadedWebServer

/-! ## Functions that print no mismatch -/

/-- A line that reports a mismatch. -/
def Line.isMismatch : Line → Bool
  | .mismatch _ => true
  | _ => false

/-- The function returns, and prints no mismatch. -/
def Passes {α : Type} (m : Checker α) (a : α) : Prop :=
  ∀ out, ∃ lines, m out = .ok (a, out ++ lines) ∧ ∀ line ∈ lines, line.isMismatch = false

section Passes

variable {α β : Type} {m : Checker α} {f : α → Checker β} {a : α} {b : β}

theorem Passes.pure (a : α) : Passes (pure a : Checker α) a := fun out =>
  ⟨[], by rw [List.append_nil]; rfl, fun line hline => by cases hline⟩

/-- One after the other. -/
theorem Passes.bind (hm : Passes m a) (hf : Passes (f a) b) : Passes (m >>= f) b := by
  intro out
  obtain ⟨lines, hrun, hlines⟩ := hm out
  obtain ⟨more, hrun', hmore⟩ := hf (out ++ lines)
  refine ⟨lines ++ more, ?_, fun line hline => ?_⟩
  · have hbind : (m >>= f) out = (m out >>= fun p => f p.1 p.2) := rfl
    rw [hbind, hrun, ← List.append_assoc]
    exact hrun'
  · rcases List.mem_append.mp hline with hline | hline
    · exact hlines line hline
    · exact hmore line hline

theorem passes_print {line : Line} (h : line.isMismatch = false) : Passes (print line) () :=
  fun _ => ⟨[line], rfl, fun line' hline => by
    obtain rfl := List.mem_singleton.mp hline
    exact h⟩

theorem passes_checkEQ {ntoh : ℕ → ℕ} {name fieldname : String} {expected actual : ℕ}
    (h : expected = actual) : Passes (checkEQ ntoh name expected actual fieldname) () := by
  rw [checkEQ, if_pos h]
  exact .pure ()

theorem passes_checkLT {ntoh : ℕ → ℕ} {name phrase fieldname : String} {smaller bigger : ℕ}
    (h : smaller < bigger) :
    Passes (checkLT ntoh name phrase smaller bigger fieldname) () := by
  rw [checkLT, if_pos h]
  exact .pure ()

end Passes

/-! ## Reading -/

section Read

variable {file : List UInt8} {pos : ℕ}

theorem passes_assertRead {bytes : List UInt8} (h : BytesAt file pos bytes) (hne : bytes ≠ []) :
    Passes (assertRead file pos bytes.length) bytes := by
  have hlen : bytes.length ≠ 0 := fun h => hne (List.length_eq_zero_iff.mp h)
  rw [assertRead, if_neg hlen, h.readAt rfl hne]
  exact .pure bytes

theorem passes_fread16 {x : UInt16} (h : BytesAt file pos (leBytes 2 (htons x).toNat)) :
    Passes (fread16 file pos) x.toNat := by
  have hread := passes_assertRead h (List.cons_ne_nil _ _)
  rw [length_leBytes] at hread
  refine hread.bind ?_
  rw [leValue_leBytes (htons x).toNat_lt, UInt16.ofNat_toNat, ntohs_htons]
  exact .pure _

theorem passes_fread32 {x : UInt32} (h : BytesAt file pos (leBytes 4 (htonl x).toNat)) :
    Passes (fread32 file pos) x.toNat := by
  have hread := passes_assertRead h (List.cons_ne_nil _ _)
  rw [length_leBytes] at hread
  refine hread.bind ?_
  rw [leValue_leBytes (htonl x).toNat_lt, UInt32.ofNat_toNat, ntohl_htonl]
  exact .pure _

theorem passes_fread64 {x : UInt64} (h : BytesAt file pos (leBytes 8 (htonll x).toNat)) :
    Passes (fread64 file pos) x.toNat := by
  have hread := passes_assertRead h (List.cons_ne_nil _ _)
  rw [length_leBytes] at hread
  refine hread.bind ?_
  rw [leValue_leBytes (htonll x).toNat_lt, UInt64.ofNat_toNat, ntohll_htonll]
  exact .pure _

end Read

/-! ## Tables -/

theorem bytesAt_position {file : List UInt8} {pos : ℕ} {r : ElementPositionRec}
    (h : BytesAt file pos (onDisk r)) :
    BytesAt file pos (leBytes 4 (htonl r.elementPosition).toNat) :=
  BytesAt.left (e := []) h

theorem bytesAt_bucketRec {file : List UInt8} {pos : ℕ} {r : BucketRec}
    (h : BytesAt file pos (onDisk r)) : BytesAt file pos (leBytes 4 (htonl r.chainLen).toNat) ∧
      BytesAt file (pos + 4) (leBytes 4 (htonl r.bucketPosition).toNat) := by
  have hbytes : onDisk r = leBytes 4 (htonl r.chainLen).toNat ++
      (leBytes 4 (htonl r.bucketPosition).toNat ++ []) := rfl
  rw [hbytes] at h
  have hright := BytesAt.right h
  rw [length_leBytes] at hright
  exact ⟨BytesAt.left h, BytesAt.left hright⟩

section Table

variable {E : Type} {elem : ℕ → E → List UInt8} {checkElement : CheckElement}
  {c : HashTableChecker} {numBuckets tableEnd : ℕ}

/-- A chain passes when its elements do. -/
theorem passes_checkChain {curBucket i : ℕ} (hend : tableEnd + 1 < 2 ^ 32) :
    ∀ (left : List E) (j pos : ℕ),
    BytesAt c.file (curBucket + j * 4) ((elementPositions elem pos left).flatMap onDisk) →
    BytesAt c.file pos (elementsImage elem pos left) →
    curBucket + j * 4 + 4 * left.length ≤ pos →
    pos + (elementsImage elem pos left).length ≤ tableEnd →
    (∀ e ∈ left, ∀ p, BytesAt c.file p (elem p e) → p + (elem p e).length ≤ tableEnd →
      Passes (checkElement numBuckets p i) ()) →
    Passes (checkChain checkElement c numBuckets tableEnd curBucket i left.length j) ()
  | [], _, _, _, _, _, _, _ => .pure ()
  | e :: left, j, pos, hpositions, helements, hroom, hfit, helem => by
    have hsize : UInt32.size = 2 ^ 32 := rfl
    rw [elementPositions, List.flatMap_cons] at hpositions
    rw [elementsImage] at helements
    rw [elementsImage, List.length_append] at hfit
    rw [List.length_cons] at hroom
    have hread := passes_fread32 (bytesAt_position hpositions.left)
    rw [UInt32.toNat_ofNat_of_lt' (by omega)] at hread
    have hrest := hpositions.right
    rw [length_onDisk, show DiskStruct.size ElementPositionRec = 4 from rfl,
      show curBucket + j * 4 + 4 = curBucket + (j + 1) * 4 by omega] at hrest
    rw [List.length_cons, checkChain, u32_of_lt (show curBucket + j * 4 < 2 ^ 32 by omega),
      u32_of_lt hend]
    refine hread.bind ((passes_checkLT (by omega)).bind
      ((helem e List.mem_cons_self pos helements.left (by omega)).bind ?_))
    exact passes_checkChain hend left (j + 1) (pos + (elem pos e).length) hrest helements.right
      (by omega) (by omega) fun e' he' => helem e' (List.mem_cons_of_mem _ he')

/-- What the checker knows of the buckets before `q`: they were all empty, or the last one
that was not starts before `q`. -/
def Before (first q : ℕ) : Option ℕ → Prop
  | none => q = first
  | some prev => prev < q

/-- The step of the outer loop that compares a bucket with the one before. -/
theorem passes_prevBucket {first q i : ℕ} {prev : Option ℕ} {chain : List E}
    (hend : tableEnd + 1 < 2 ^ 32) (hnum : first = c.offset + 4 + 8 * numBuckets)
    (hfirst : ∃ len, BytesAt c.file (c.offset + 4)
      (onDisk (⟨len, UInt32.ofNat first⟩ : BucketRec)))
    (hq : first ≤ q) (hprev : Before first q prev)
    (hlen : (bucketImage elem q chain).length =
      4 * chain.length + (elementsImage elem (q + 4 * chain.length) chain).length)
    (hfit : q ≤ tableEnd) :
    ∃ prev', Passes (match prev with
      | some prev =>
        if 0 < chain.length then do
          checkLT32 prev q
            (toStringBuf ("bucket_rec[" ++ formatInt i ++ "].position < bucket_rec[" ++
              formatInt (u32 (i + 1)) ++ "].position"))
          return some q
        else
          return some prev
      | none =>
        if 0 < chain.length then do
          let _prevChainLen ← fread32 c.file (u32 (c.offset + 4))
          let prev ← fread32 c.file (u32 (c.offset + 4) + 4)
          checkEQ32 (u32 (c.offset + 4 + 8 * numBuckets)) prev
            ("position of the first non-empty bucket (expected to be " ++
              "(table start) + (4) + (8*num_buckets))")
          return some prev
        else
          return none) prev' ∧ Before first (q + (bucketImage elem q chain).length) prev' := by
  have hsize : UInt32.size = 2 ^ 32 := rfl
  cases chain with
  | nil =>
    rw [hlen]
    cases prev with
    | none => exact ⟨none, .pure none, hprev⟩
    | some prev => exact ⟨some prev, .pure (some prev), hprev⟩
  | cons e chain =>
    rw [List.length_cons] at hlen
    cases prev with
    | none =>
      obtain ⟨len, hrec⟩ := hfirst
      obtain ⟨hchainLen, hposition⟩ := bytesAt_bucketRec hrec
      have hreadPos := passes_fread32 hposition
      rw [UInt32.toNat_ofNat_of_lt' (by omega)] at hreadPos
      refine ⟨some first, ?_, ?_⟩
      · dsimp only
        rw [List.length_cons, if_pos (Nat.succ_pos _), u32_of_lt (by omega), u32_of_lt (by omega)]
        exact (passes_fread32 hchainLen).bind (hreadPos.bind
          ((passes_checkEQ hnum.symm).bind (.pure _)))
      · have hq' : q = first := hprev
        show first < _
        omega
    | some prev =>
      have hlt : prev < q := hprev
      refine ⟨some q, ?_, ?_⟩
      · dsimp only
        rw [List.length_cons, if_pos (Nat.succ_pos _)]
        exact (passes_checkLT hlt).bind (.pure _)
      · show q < _
        omega

/-- The buckets pass when their elements do. -/
theorem passes_checkBuckets {first : ℕ} (hend : tableEnd + 1 < 2 ^ 32)
    (hnum : first = c.offset + 4 + 8 * numBuckets)
    (hfirst : ∃ len, BytesAt c.file (c.offset + 4)
      (onDisk (⟨len, UInt32.ofNat first⟩ : BucketRec))) :
    ∀ (left : List (List E)) (i q : ℕ) (prev : Option ℕ),
    BytesAt c.file (c.offset + 4 + 8 * i) (recsImage elem q left) →
    BytesAt c.file q (bucketsImage elem q left) →
    first ≤ q → i + left.length = numBuckets →
    q + (bucketsImage elem q left).length ≤ tableEnd → Before first q prev →
    (∀ k chain, left[k]? = some chain → ∀ e ∈ chain, ∀ p, BytesAt c.file p (elem p e) →
      p + (elem p e).length ≤ tableEnd → Passes (checkElement numBuckets p (i + k)) ()) →
    Passes (checkBuckets checkElement c numBuckets tableEnd left.length i prev) ()
  | [], _, _, _, _, _, _, _, _, _, _ => .pure ()
  | chain :: left, i, q, prev, hrecs, hbuckets, hq, hi, hfit, hprev, helem => by
    have hsize : UInt32.size = 2 ^ 32 := rfl
    rw [recsImage] at hrecs
    rw [bucketsImage] at hbuckets
    rw [bucketsImage, List.length_append] at hfit
    rw [List.length_cons] at hi
    have hlen := length_bucketImage elem q chain
    obtain ⟨hchainLen, hposition⟩ := bytesAt_bucketRec hrecs.left
    have hreadLen := passes_fread32 hchainLen
    have hreadPos := passes_fread32 hposition
    rw [UInt32.toNat_ofNat_of_lt' (by omega)] at hreadLen hreadPos
    have hrest := hrecs.right
    rw [length_onDisk, show DiskStruct.size BucketRec = 8 from rfl,
      show c.offset + 4 + 8 * i + 8 = c.offset + 4 + 8 * (i + 1) by omega] at hrest
    have hbucket := hbuckets.left
    have helements := hbucket.right
    rw [length_flatMap_onDisk, length_elementPositions,
      show DiskStruct.size ElementPositionRec = 4 from rfl] at helements
    obtain ⟨prev', hprevRun, hprev'⟩ := passes_prevBucket (i := i) hend hnum hfirst hq hprev hlen
      (by omega)
    rw [List.length_cons, checkBuckets, u32_of_lt (show c.offset + 4 + 8 * i < 2 ^ 32 by omega),
      u32_of_lt hend]
    refine hreadLen.bind (hreadPos.bind (hprevRun.bind ((passes_checkLT (by omega)).bind
      (Passes.bind (a := ()) ?_ ?_))))
    · refine passes_checkChain hend chain 0 (q + 4 * chain.length) ?_ helements (by omega)
        (by omega)
        fun e he p hp hle => helem 0 chain rfl e he p hp hle
      rw [Nat.zero_mul, Nat.add_zero]
      exact hbucket.left
    · refine passes_checkBuckets hend hnum hfirst left (i + 1) _ prev' hrest hbuckets.right
        (by omega) (by omega) (by omega) hprev' fun k chain' hk e he p hp hle => ?_
      have h := helem (k + 1) chain' hk e he p hp hle
      rwa [show i + (k + 1) = i + 1 + k by omega] at h

/-- A table passes when its elements do. -/
theorem passes_check {chains : List (List E)}
    (hbytes : BytesAt c.file c.offset (tableImage elem c.offset chains))
    (hlen : c.len = (tableImage elem c.offset chains).length)
    (hend : c.offset + c.len + 1 < 2 ^ 32)
    (helem : ∀ k chain, chains[k]? = some chain → ∀ e ∈ chain, ∀ p, BytesAt c.file p (elem p e) →
      p + (elem p e).length ≤ c.offset + c.len →
      Passes (checkElement chains.length p k) ()) :
    Passes (check checkElement c c.offset c.len) () := by
  have hsize : UInt32.size = 2 ^ 32 := rfl
  rw [length_tableImage] at hlen
  rw [tableImage] at hbytes
  have hheader : BytesAt c.file c.offset
      (leBytes 4 (htonl (UInt32.ofNat chains.length)).toNat) :=
    BytesAt.left (e := []) hbytes.left
  have hread := passes_fread32 hheader
  rw [UInt32.toNat_ofNat_of_lt' (by omega)] at hread
  have hrest := hbytes.right
  rw [length_onDisk, show DiskStruct.size BucketListHeader = 4 from rfl] at hrest
  have hbuckets := hrest.right
  rw [length_recsImage] at hbuckets
  rw [check, u32_of_lt (show c.offset + c.len < 2 ^ 32 by omega)]
  refine hread.bind (Passes.bind (a := ()) ?_ ?_)
  · rw [u32_of_lt (by omega)]
    exact passes_checkLT (by omega)
  · cases chains with
    | nil => exact .pure ()
    | cons chain chains =>
      have hfirst := hrest.left
      rw [recsImage] at hfirst
      refine passes_checkBuckets hend rfl ⟨_, hfirst.left⟩ (chain :: chains) 0 _ none hrest.left
        hbuckets (Nat.le_refl _) (Nat.zero_add _) (by omega) rfl
        fun k chain' hk e he p hp hle => ?_
      rw [Nat.zero_add]
      exact helem k chain' hk e he p hp hle

end Table

/-- The chain of a bucket has the pairs whose keys hash to it. -/
theorem HashTable.WF.place_chains {V : Type} {t : HashTable V} (h : t.WF) {k : ℕ}
    {chain : List (HTKeyValue V)} (hk : t.chains[k]? = some chain) :
    ∀ kv ∈ chain, kv ∈ t.entries ∧ kv.key.toNat % t.chains.length = k := by
  intro kv hkv
  rw [h.length_chains]
  have hmem : kv ∈ t.entries := by
    rw [entries_eq_flatten]
    exact List.mem_flatten_of_mem (List.mem_of_getElem? hk) hkv
  rw [HashTable.chains, List.getElem?_map, Option.map_eq_some_iff] at hk
  obtain ⟨list, hlist, rfl⟩ := hk
  exact ⟨hmem, h.place k list hlist kv hkv⟩

/-- A table passes when what it holds does; the elements are in their buckets. -/
theorem passes_checkTable {V : Type} {t : HashTable V} (h : t.WF)
    {elem : ℕ → HTKeyValue V → List UInt8} {checkElement : CheckElement} {c : HashTableChecker}
    (hbytes : BytesAt c.file c.offset (tableImage elem c.offset t.chains))
    (hlen : c.len = (tableImage elem c.offset t.chains).length)
    (hend : c.offset + c.len + 1 < 2 ^ 32)
    (helem : ∀ kv ∈ t.entries, ∀ p, BytesAt c.file p (elem p kv) →
      p + (elem p kv).length ≤ c.offset + c.len →
      Passes (checkElement t.numBuckets p (kv.key.toNat % t.numBuckets)) ()) :
    Passes (check checkElement c c.offset c.len) () := by
  refine passes_check hbytes hlen hend fun k chain hk kv hkv p hp hle => ?_
  obtain ⟨hmem, hplace⟩ := h.place_chains hk kv hkv
  rw [h.length_chains] at hplace ⊢
  rw [← hplace]
  exact helem kv hmem p hp hle

end MultithreadedWebServer
