import MultithreadedWebServer.CutStrings

/-!
# Strings that are too long for their length field

A string whose length is a multiple of `2 ^ 16` has nothing left after the conversion of its
length, and is refused: `fwrite` of no bytes does not return 1, and `WriteWordDocSetFn` checks
the length of a word. Any other string of `2 ^ 16` or more bytes is written without its end.
-/

namespace MultithreadedWebServer

/-! ## Elements that are accepted -/

/-- A call of the element function for this pair may return something other than 0. -/
def Accepts {V : Type} (fn : WriteElementFn V) (kv : HTKeyValue V) : Prop :=
  ∃ offset f n f', (fn offset kv).Returns f n f' ∧ n ≠ 0

/-- A checked condition of a run that returns holds. -/
theorem returns_of_verify {α : Type} {exp : Bool} {k : PUnit → Run IndexFile α}
    {f f' : IndexFile} {a : α} (h : (Run.verify333 exp >>= k).Returns f a f') :
    exp = true ∧ (k ⟨⟩).Returns f a f' := by
  cases exp with
  | false => cases h
  | true => exact ⟨rfl, h⟩

/-- Unless 0 is returned, both calls have succeeded. -/
theorem returns_of_seek_write {p : ℕ} {d : List UInt8} {m : Run IndexFile ℕ} {f f' : IndexFile}
    {n : ℕ} (h : (do if ← fseek p then (if (← fwrite d) ≠ 1 then return 0 else m) else return 0 :
      Run IndexFile ℕ).Returns f n f') (hne : n ≠ 0) : ∃ f₁, m.Returns f₁ n f' := by
  obtain ⟨sought, f₁, -, h⟩ := Run.bind_eq_ok h
  cases sought with
  | false =>
    obtain ⟨hzero, -⟩ := Run.pure_eq_ok.mp h
    exact absurd hzero.symm hne
  | true =>
    obtain ⟨res, f₂, -, h⟩ := Run.bind_eq_ok h
    by_cases hres : res ≠ 1
    · rw [if_pos hres] at h
      obtain ⟨hzero, -⟩ := Run.pure_eq_ok.mp h
      exact absurd hzero.symm hne
    · rw [if_neg hres] at h
      exact ⟨f₂, h⟩

section Accepts

variable {V : Type} {fn : WriteElementFn V}

/-- The loop of `WriteBucket` does not return anything but 0 unless all elements are accepted. -/
theorem writeElements_accepts {li : LinkedList (HTKeyValue V)} {offset : ℕ} :
    ∀ (left done : List (Addr × HTKeyValue V)) (p : Ptr) (j bucketlen nextelpos : ℕ)
      {f f' : IndexFile} {n : ℕ}, Repr li (done ++ left) →
      (writeElements fn li offset left.length j ⟨firstAddr left p⟩ bucketlen nextelpos).Returns
        f n f' → n ≠ 0 → ∀ kv ∈ left.map Prod.snd, Accepts fn kv
  | [], _, _, _, _, _, _, _, _, _, _, _ => by
    intro kv hkv
    cases hkv
  | (a, kv) :: left, done, p, j, bucketlen, nextelpos, f, f', n, hli, hrun, hne => by
    rw [List.length_cons, writeElements] at hrun
    obtain ⟨f₁, hrun⟩ := returns_of_seek_write hrun hne
    rw [firstAddr, llIteratorGetPayload_spec hli, Run.pure_bind] at hrun
    obtain ⟨ellen, f₂, hfn, hrun⟩ := Run.bind_eq_ok hrun
    obtain ⟨hpos, hrun⟩ := returns_of_verify hrun
    rw [llIteratorNext_spec hli, Run.pure_bind] at hrun
    rw [List.append_cons] at hli
    have hleft := writeElements_accepts left (done ++ [(a, kv)]) (some a) (j + 1) _ _ hli hrun hne
    intro e he
    rcases List.mem_cons.mp he with rfl | he
    · exact ⟨_, _, _, _, hfn, Nat.ne_of_gt (of_decide_eq_true hpos)⟩
    · exact hleft e he

/-- Neither does `WriteBucket`. -/
theorem writeBucket_accepts {li : LinkedList (HTKeyValue V)} (hli : li.WF) {offset : ℕ}
    {f f' : IndexFile} {n : ℕ} (hrun : (writeBucket fn li offset).Returns f n f') (hne : n ≠ 0) :
    ∀ kv ∈ li.toList, Accepts fn kv := by
  have hrepr : Repr li li.cells := hli
  rw [writeBucket] at hrun
  rcases hcells : li.cells with _ | ⟨c, cs⟩
  · intro kv hkv
    rw [LinkedList.toList, hcells] at hkv
    cases hkv
  · have hcount : numElementsInLinkedList li = (c :: cs).length := by
      rw [numElementsInLinkedList, hrepr.count, hcells]
    rw [hcells] at hrepr
    rw [hcount, if_pos (show 0 < (c :: cs).length from Nat.succ_pos _)] at hrun
    obtain ⟨made, f₁, hmake, hrun⟩ := Run.bind_eq_ok hrun
    have hspec : withMallocs (llMakeIterator li 0) f =
        .ok (if verdict f.mallocs then some ⟨some c.1⟩ else none,
          { f with mallocs := f.mallocs.tail }) := by
      rw [withMallocs, Run.zoom, llMakeIterator_spec hrepr]
    rw [hspec] at hmake
    obtain ⟨rfl, rfl⟩ := Prod.mk.inj (Except.ok.inj hmake)
    cases hserved : verdict f.mallocs with
    | false =>
      rw [hserved] at hrun
      cases hrun
    | true =>
      rw [hserved, if_pos rfl] at hrun
      have haccepts := writeElements_accepts (c :: cs) [] none 0 _ _ hrepr hrun hne
      rwa [LinkedList.toList, hcells]

theorem returns_bucketAt {ht : HashTable V} {i : ℕ} {f f' : IndexFile}
    {li : LinkedList (HTKeyValue V)} (h : (bucketAt ht i).Returns f li f') :
    ht.buckets[i]? = some li := by
  rw [bucketAt] at h
  rcases hi : ht.buckets[i]? with _ | chain
  · rw [hi] at h
    cases h
  · rw [hi] at h
    obtain ⟨rfl, -⟩ := Run.pure_eq_ok.mp h
    rfl

/-- The loop of `WriteHashTable` does not return unless all elements are accepted. -/
theorem writeBuckets_accepts {ht : HashTable V} (hchains : ∀ li ∈ ht.buckets, li.WF) :
    ∀ (left i r q : ℕ) {f f' : IndexFile} {n : ℕ}, (writeBuckets fn ht left i r q).Returns f n f' →
      ∀ j, i ≤ j → j < i + left → ∀ li, ht.buckets[j]? = some li → ∀ kv ∈ li.toList, Accepts fn kv
  | 0, i, _, _, _, _, _, _ => by
    intro j hle hlt
    exact absurd hlt (Nat.not_lt_of_le hle)
  | left + 1, i, r, q, f, f', n, hrun => by
    rw [writeBuckets] at hrun
    obtain ⟨li, f₁, hbucket, hrun⟩ := Run.bind_eq_ok hrun
    obtain ⟨res, f₂, -, hrun⟩ := Run.bind_eq_ok hrun
    obtain ⟨-, hrun⟩ := returns_of_verify hrun
    have hi : ht.buckets[i]? = some li := returns_bucketAt hbucket
    have hli : li.WF := hchains li (List.mem_of_getElem? hi)
    -- the elements of this bucket, and the run over the others
    have hboth : (∀ kv ∈ li.toList, Accepts fn kv) ∧ ∃ r' q' f₃,
        (writeBuckets fn ht left (i + 1) r' q').Returns f₃ n f' := by
      by_cases hpos : 0 < numElementsInLinkedList li
      · rw [if_pos hpos] at hrun
        obtain ⟨size, f₃, hwrite, hrun⟩ := Run.bind_eq_ok hrun
        obtain ⟨hsize, hrun⟩ := returns_of_verify hrun
        exact ⟨writeBucket_accepts hli hwrite (of_decide_eq_true hsize), _, _, _, hrun⟩
      · rw [if_neg hpos] at hrun
        refine ⟨fun kv hkv => ?_, _, _, _, hrun⟩
        have hlen : li.toList.length = 0 := by
          rw [← hli.numElements_eq]
          exact Nat.eq_zero_of_not_pos hpos
        rw [List.length_eq_zero_iff.mp hlen] at hkv
        cases hkv
    obtain ⟨haccepts, r', q', f₃, hrest⟩ := hboth
    intro j hle hlt li' hj
    rcases Nat.eq_or_lt_of_le hle with rfl | hgt
    · obtain rfl := Option.some.inj (hi.symm.trans hj)
      exact haccepts
    · exact writeBuckets_accepts hchains left (i + 1) r' q' hrest j hgt (by omega) li' hj

/-- `WriteHashTable` does not return unless all elements are accepted, if its header could be
written. -/
theorem writeHashTable_accepts {ht : HashTable V} (h : ht.WF) {offset pos n : ℕ} {b : List UInt8}
    {f' : IndexFile} (hrun : (writeHashTable ht offset fn).Returns (quiet b pos) n f') :
    ∀ kv ∈ ht.entries, Accepts fn kv := by
  rw [writeHashTable] at hrun
  obtain ⟨sought, f₁, hseek, hrun⟩ := Run.bind_eq_ok hrun
  obtain ⟨rfl, rfl⟩ := Run.Returns.unique (fseek_quiet b pos offset) hseek
  obtain ⟨res, f₂, hwrite, hrun⟩ := Run.bind_eq_ok hrun
  obtain ⟨rfl, rfl⟩ := Run.Returns.unique (fwrite_quiet b offset (onDisk_ne_nil _)) hwrite
  rw [if_neg (not_not.mpr rfl)] at hrun
  obtain ⟨next, f₃, hbuckets, -⟩ := Run.bind_eq_ok hrun
  intro kv hkv
  obtain ⟨li, hli, hkv⟩ := List.mem_flatMap.mp hkv
  obtain ⟨j, hj⟩ := List.getElem?_of_mem hli
  have hlt := (List.getElem?_eq_some_iff.mp hj).1
  rw [← h.size] at hlt
  exact writeBuckets_accepts h.chains _ 0 _ _ hbuckets j (Nat.zero_le j) (by omega) li hj kv hkv

end Accepts

/-! ## What the element writers accept -/

theorem ofNat_eq_zero_of_dvd {n : ℕ} (h : 2 ^ 16 ∣ n) : UInt16.ofNat n = 0 := by
  rw [← UInt16.toNat_inj, UInt16.toNat_ofNat', Nat.mod_eq_zero_of_dvd h]
  rfl

/-- `WriteDocidDocnameFn` refuses a name exactly if its length is a multiple of `2 ^ 16`. -/
theorem accepts_name_iff {kv : HTKeyValue CString} :
    Accepts writeDocidDocnameFn kv ↔ ¬ 2 ^ 16 ∣ kv.value.bytes.length := by
  constructor
  · rintro ⟨offset, f, n, f', hrun, hne⟩ hdvd
    rw [writeDocidDocnameFn] at hrun
    rw [ofNat_eq_zero_of_dvd hdvd] at hrun
    obtain ⟨f₁, hrun⟩ := returns_of_seek_write hrun hne
    -- nothing of the name is left, and `fwrite` returns 0
    obtain ⟨hzero, -⟩ := Run.pure_eq_ok.mp hrun
    exact hne hzero.symm
  · intro hcut
    have hnames : ∀ kv' ∈ [kv], ¬ 2 ^ 16 ∣ kv'.value.bytes.length := by
      intro kv' hkv'
      rwa [List.mem_singleton.mp hkv']
    have hlen : (cutNameElem 0 kv).length < 2 ^ 32 := by
      have hlt := length_cut_lt kv.value
      rw [cutNameElem, docNameElem, List.length_append, length_onDisk]
      have hsize : DiskStruct.size DoctableElementHeader = 10 := rfl
      have hvalue : (cutName kv).value = cut kv.value := rfl
      rw [hvalue]
      omega
    obtain ⟨hne, hwrites⟩ := writeDocidDocnameFn_writes_cut hnames kv List.mem_cons_self 0
      (by rwa [Nat.zero_add])
    obtain ⟨pos, hrun⟩ := hwrites [] 0
    exact ⟨0, _, _, _, hrun, fun hzero => hne (List.length_eq_zero_iff.mp hzero)⟩

/-- Every element of a chain stands somewhere. -/
theorem exists_elementAt {E : Type} {elem : ℕ → E → List UInt8} {b : List UInt8}
    {recs : List ElementPositionRec} {chain : List E}
    (h : List.Forall₂ (ElementAt elem b) recs chain) {e : E} (he : e ∈ chain) :
    ∃ r ∈ recs, ElementAt elem b r e := by
  induction h with
  | nil => cases he
  | @cons r e' recs chain hat _ ih =>
    rcases List.mem_cons.mp he with rfl | he
    · exact ⟨r, List.mem_cons_self, hat⟩
    · obtain ⟨r', hr', hat'⟩ := ih he
      exact ⟨r', List.mem_cons_of_mem _ hr', hat'⟩

section Words

variable {mi : MemIndex} {dt : DocTable}

/-- `WriteWordDocSetFn` refuses a word if its length is a multiple of `2 ^ 16`. -/
theorem not_dvd_of_accepts_word {records : Arena WordDocSet} {kv : HTKeyValue Addr}
    {wds : WordDocSet} (hread : records.read kv.value = some wds)
    (h : Accepts (writeWordDocSetFn records) kv) : ¬ 2 ^ 16 ∣ wds.word.bytes.length := by
  obtain ⟨offset, f, n, f', hrun, -⟩ := h
  intro hdvd
  rw [writeWordDocSetFn, deref_some hread, Run.pure_bind] at hrun
  dsimp only at hrun
  rw [ofNat_eq_zero_of_dvd hdvd] at hrun
  obtain ⟨hpos, -⟩ := returns_of_verify hrun
  cases hpos

/-- And only then. -/
theorem Storable.accepts_word (h : Storable mi dt) {kv : HTKeyValue Addr}
    (hkv : kv ∈ mi.table.entries) {wds : WordDocSet} (hread : mi.records.read kv.value = some wds)
    (hcut : ¬ 2 ^ 16 ∣ wds.word.bytes.length) : Accepts (writeWordDocSetFn mi.records) kv := by
  -- the element has a place in the file
  obtain ⟨chain, hchain, -, hsup, -⟩ := h.index.records.table.lookup_chain kv.key
  obtain ⟨recs, -, helems⟩ := lookupElementPositions_spec h.indexTable_at hchain
  obtain ⟨r, -, -, hfit⟩ := exists_elementAt helems (hsup kv hkv rfl)
  have hwords : ∀ kv' ∈ [kv], ∀ wds', mi.records.read kv'.value = some wds' →
      ¬ 2 ^ 16 ∣ wds'.word.bytes.length := by
    intro kv' hkv' wds' hread'
    rw [List.mem_singleton.mp hkv', hread] at hread'
    rwa [← Option.some.inj hread']
  have hmem : ∀ kv' ∈ [kv], kv' ∈ mi.table.entries := by
    intro kv' hkv'
    rwa [List.mem_singleton.mp hkv']
  obtain ⟨hne, hwrites⟩ :=
    writeWordDocSetFn_writes_cut h.index hmem hwords kv List.mem_cons_self _ hfit
  obtain ⟨pos, hrun⟩ := hwrites [] 0
  exact ⟨_, _, _, _, hrun, fun hzero => hne (List.length_eq_zero_iff.mp hzero)⟩

/-! ## What `WriteIndex` refuses -/

/-- `WriteIndex` does not return with a name or a word whose length is a multiple of `2 ^ 16`,
unless it returns 0. -/
theorem Storable.writeIndex_refuses (h : Storable mi dt) {s : CString} (hs : Stored mi dt s)
    (hdvd : 2 ^ 16 ∣ s.bytes.length) {f f' : IndexFile} {n : ℕ} (hio : f.verdicts = [])
    (hmallocs : f.mallocs = []) (hrun : (writeIndex mi dt).Returns f n f') : n = 0 := by
  obtain ⟨linked, content, pos, verdicts, mallocs⟩ := f
  obtain rfl : verdicts = [] := hio
  obtain rfl : mallocs = [] := hmallocs
  have hopen : fopen.Returns ⟨linked, content, pos, [], []⟩ true (quiet [] 0) := rfl
  obtain ⟨opened, f₀, hfopen, hrun⟩ := Run.bind_eq_ok hrun
  obtain ⟨rfl, rfl⟩ := hopen.unique hfopen
  rw [if_pos rfl] at hrun
  obtain ⟨dtres, f₁, hdoc, hrun⟩ := Run.bind_eq_ok hrun
  have hnames : ∀ kv ∈ (dtGetDocidTable dt).entries, ¬ 2 ^ 16 ∣ kv.value.bytes.length :=
    fun kv hkv => accepts_name_iff.mp (writeHashTable_accepts h.docs hdoc kv hkv)
  obtain ⟨pos₁, hdoc'⟩ := h.writeDocTable_writes hnames [] 0
  obtain ⟨rfl, rfl⟩ := hdoc'.unique hdoc
  rw [if_neg (length_cutDocTable_ne dt)] at hrun
  obtain ⟨mires, f₂, hindex, -⟩ := Run.bind_eq_ok hrun
  have hwords := writeHashTable_accepts h.index.records.table hindex
  -- every name and every word has been accepted, this one, too
  rcases hs with ⟨kv, hkv, rfl⟩ | ⟨key, set, hget, rfl⟩
  · exact absurd hdvd (hnames kv hkv)
  · obtain ⟨a, ha, hread⟩ := h.index.records.exists_entry hget
    exact absurd hdvd (not_dvd_of_accepts_word hread (hwords _ ha))

end Words

/-! ## When strings that are too long are refused -/

/-- The element writers report an error for every string that is too long. -/
def ElementsRefuse (mi : MemIndex) (dt : DocTable) : Prop :=
  (∀ kv ∈ (dtGetDocidTable dt).entries, 2 ^ 16 ≤ kv.value.bytes.length →
    ¬ Accepts writeDocidDocnameFn kv) ∧
  ∀ kv ∈ mi.table.entries, ∀ wds, mi.records.read kv.value = some wds →
    2 ^ 16 ≤ wds.word.bytes.length → ¬ Accepts (writeWordDocSetFn mi.records) kv

/-- `WriteIndex` does not return success if there is such a string. -/
def IndexRefuses (mi : MemIndex) (dt : DocTable) : Prop :=
  ∀ s, Stored mi dt s → 2 ^ 16 ≤ s.bytes.length → ∀ f n f', f.verdicts = [] → f.mallocs = [] →
    (writeIndex mi dt).Returns f n f' → n = 0

/-- The file opens, and every word and every document is found in it, with its full name. -/
def FoundAgain (file : List UInt8) (mi : MemIndex) (dt : DocTable) : Prop :=
  ∀ validate, ∃ fir docs index, newFileIndexReader file validate = .ok fir ∧
    getDocTableReader fir = .ok docs ∧ getIndexTableReader fir = .ok index ∧
    (∀ key set, mi.get? key = some set →
      ∃ r, lookupWord index set.word.bytes = .ok (some r)) ∧
    ∀ kv ∈ (dtGetDocidTable dt).entries,
      docTableLookupDocID docs kv.key = .ok (some kv.value.bytes)

/-- Whenever `WriteIndex` returns success, everything is found again. -/
def SuccessFindsAll (mi : MemIndex) (dt : DocTable) : Prop :=
  ∀ f n f', f.verdicts = [] → f.mallocs = [] → (writeIndex mi dt).Returns f n f' → n ≠ 0 →
    FoundAgain f'.content mi dt

section Refusal

variable {mi : MemIndex} {dt : DocTable}

/-- The element writers refuse the strings with nothing left. -/
theorem Storable.elementsRefuse_iff (h : Storable mi dt) : ElementsRefuse mi dt ↔
    ∀ s, Stored mi dt s → s.bytes.length < 2 ^ 16 ∨ 2 ^ 16 ∣ s.bytes.length := by
  constructor
  · rintro ⟨hnames, hwords⟩ s hs
    by_contra hnot
    rw [not_or, Nat.not_lt] at hnot
    obtain ⟨hlong, hcut⟩ := hnot
    rcases hs with ⟨kv, hkv, rfl⟩ | ⟨key, set, hget, rfl⟩
    · exact hnames kv hkv hlong (accepts_name_iff.mpr hcut)
    · obtain ⟨a, ha, hread⟩ := h.index.records.exists_entry hget
      exact hwords _ ha set hread hlong (h.accepts_word ha hread hcut)
  · intro hall
    constructor
    · intro kv hkv hlong haccepts
      rcases hall _ (.inl ⟨kv, hkv, rfl⟩) with hlt | hdvd
      · exact absurd hlong (Nat.not_le_of_gt hlt)
      · exact accepts_name_iff.mp haccepts hdvd
    · intro kv hkv wds hread hlong haccepts
      have hget : mi.get? kv.key = some wds :=
        (mi.get?_of_mem h.index.records.table hkv).trans hread
      rcases hall _ (.inr ⟨kv.key, wds, hget, rfl⟩) with hlt | hdvd
      · exact absurd hlong (Nat.not_le_of_gt hlt)
      · exact not_dvd_of_accepts_word hread haccepts hdvd

theorem names_not_dvd (hcut : ∀ s, Stored mi dt s → ¬ 2 ^ 16 ∣ s.bytes.length) :
    ∀ kv ∈ (dtGetDocidTable dt).entries, ¬ 2 ^ 16 ∣ kv.value.bytes.length :=
  fun kv hkv => hcut _ (.inl ⟨kv, hkv, rfl⟩)

theorem Storable.words_not_dvd (h : Storable mi dt)
    (hcut : ∀ s, Stored mi dt s → ¬ 2 ^ 16 ∣ s.bytes.length) :
    ∀ kv ∈ mi.table.entries, ∀ wds, mi.records.read kv.value = some wds →
      ¬ 2 ^ 16 ∣ wds.word.bytes.length :=
  fun kv hkv wds hread => hcut _ (.inr ⟨kv.key, wds,
    (mi.get?_of_mem h.index.records.table hkv).trans hread, rfl⟩)

/-- With no string refused and one too long, `WriteIndex` succeeds and the string is lost. -/
theorem Storable.lost (h : Storable mi dt)
    (hcut : ∀ s, Stored mi dt s → ¬ 2 ^ 16 ∣ s.bytes.length) {s : CString} (hs : Stored mi dt s)
    (hlong : 2 ^ 16 ≤ s.bytes.length) : ¬ FoundAgain (cutFile mi dt) mi dt := by
  intro hfound
  obtain ⟨fir, docs, index, hfir, hdocs, hindex, hwords, hnames⟩ := hfound true
  obtain ⟨fir', hfir', hdocs', hindex'⟩ := h.readers true
  obtain rfl := Except.ok.inj (hfir'.symm.trans hfir)
  obtain rfl := Except.ok.inj (hdocs'.symm.trans hdocs)
  obtain rfl := Except.ok.inj (hindex'.symm.trans hindex)
  rcases hs with ⟨kv, hkv, rfl⟩ | ⟨key, set, hget, rfl⟩
  · have hname := hnames kv hkv
    rw [h.lookupDocID_cut (names_not_dvd hcut), HashTable.toFinmap,
      lookup_asFinmap_of_mem h.docs.distinct hkv] at hname
    have hshort := length_cut_lt kv.value
    have heq : (cut kv.value).bytes = kv.value.bytes := Option.some.inj (Except.ok.inj hname)
    rw [heq] at hshort
    exact absurd hlong (Nat.not_le_of_gt hshort)
  · obtain ⟨r, hword⟩ := hwords key set hget
    rcases h.lookupWord_cut (h.words_not_dvd hcut) set.word.bytes with
      ⟨-, set', -, -, heq, -⟩ | ⟨-, hmiss⟩
    · have hshort := length_cut_lt set'.word
      rw [heq] at hshort
      exact absurd hlong (Nat.not_le_of_gt hshort)
    · rw [hmiss] at hword
      cases hword

/-- Everything that fits is found again. -/
theorem Storable.found (h : Storable mi dt) (hfits : ∀ s, Stored mi dt s → FitsLength s) :
    FoundAgain (cutFile mi dt) mi dt := by
  have hcut : ∀ s, Stored mi dt s → ¬ 2 ^ 16 ∣ s.bytes.length := fun s hs hdvd =>
    absurd (hfits s hs).2 (Nat.not_lt_of_le (Nat.le_of_dvd (hfits s hs).1 hdvd))
  intro validate
  obtain ⟨fir, hfir, hdocs, hindex⟩ := h.readers validate
  refine ⟨fir, _, _, hfir, hdocs, hindex, fun key set hget => ?_, fun kv hkv => ?_⟩
  · have hwhole : cut set.word = set.word := cut_of_lt (hfits _ (.inr ⟨key, set, hget, rfl⟩)).2
    rcases h.lookupWord_cut (h.words_not_dvd hcut) set.word.bytes with
      ⟨-, -, r, -, -, hfound⟩ | ⟨hmiss, -⟩
    · exact ⟨r, hfound⟩
    · -- a word is filed under its hash
      have hkey : key = fnvHash64 set.word.bytes (u32 set.word.bytes.length) :=
        h.index.key key set hget
      rw [hkey] at hget
      exact absurd (congrArg CString.bytes hwhole) (hmiss set hget)
  · have hwhole : cut kv.value = kv.value := cut_of_lt (hfits _ (.inl ⟨kv, hkv, rfl⟩)).2
    rw [h.lookupDocID_cut (names_not_dvd hcut), HashTable.toFinmap,
      lookup_asFinmap_of_mem h.docs.distinct hkv, Option.map_some, hwhole]

/-- The strings of an index survive as a whole: one of them is refused, or all of them fit. -/
def RefusesOrFits (mi : MemIndex) (dt : DocTable) : Prop :=
  (∃ s, Stored mi dt s ∧ 2 ^ 16 ∣ s.bytes.length) ∨ ∀ s, Stored mi dt s → s.bytes.length < 2 ^ 16

/-- Otherwise nothing is refused, and something does not fit. -/
theorem exists_long_of_not_refusesOrFits (h : ¬ RefusesOrFits mi dt) :
    (∀ s, Stored mi dt s → ¬ 2 ^ 16 ∣ s.bytes.length) ∧
      ∃ s, Stored mi dt s ∧ 2 ^ 16 ≤ s.bytes.length := by
  obtain ⟨hnone, hall⟩ := not_or.mp h
  refine ⟨fun s hs hdvd => hnone ⟨s, hs, hdvd⟩, ?_⟩
  by_contra hshort
  exact hall fun s hs => Nat.lt_of_not_le fun hlong => hshort ⟨s, hs, hlong⟩

theorem length_cutFile_ne (mi : MemIndex) (dt : DocTable) : (cutFile mi dt).length ≠ 0 := by
  rw [cutFile, length_fileOf]
  omega

/-- When `WriteIndex` refuses strings that are too long. -/
theorem Storable.indexRefuses_iff (h : Storable mi dt) :
    IndexRefuses mi dt ↔ RefusesOrFits mi dt := by
  constructor
  · intro hrefuses
    by_contra hnot
    obtain ⟨hcut, s, hs, hlong⟩ := exists_long_of_not_refusesOrFits hnot
    obtain ⟨pos, hrun⟩ := h.writeIndex_returns (f := ⟨false, [], 0, [], []⟩) hcut rfl rfl
    exact length_cutFile_ne mi dt (hrefuses s hs hlong _ _ _ rfl rfl hrun)
  · rintro (⟨t, ht, hdvd⟩ | hshort) s hs hlong f n f' hio hmallocs hrun
    · exact h.writeIndex_refuses ht hdvd hio hmallocs hrun
    · exact absurd hlong (Nat.not_le_of_gt (hshort s hs))

/-- And when its success means that everything is found. -/
theorem Storable.successFindsAll_iff (h : Storable mi dt) :
    SuccessFindsAll mi dt ↔ RefusesOrFits mi dt := by
  constructor
  · intro hfinds
    by_contra hnot
    obtain ⟨hcut, s, hs, hlong⟩ := exists_long_of_not_refusesOrFits hnot
    obtain ⟨pos, hrun⟩ := h.writeIndex_returns (f := ⟨false, [], 0, [], []⟩) hcut rfl rfl
    have hfound := hfinds _ _ _ rfl rfl hrun (length_cutFile_ne mi dt)
    exact h.lost hcut hs hlong hfound
  · intro hall f n f' hio hmallocs hrun hne
    have hcut : ∀ s, Stored mi dt s → ¬ 2 ^ 16 ∣ s.bytes.length := fun s hs hdvd =>
      hne (h.writeIndex_refuses hs hdvd hio hmallocs hrun)
    have hfits : ∀ s, Stored mi dt s → FitsLength s := by
      intro s hs
      rcases hall with ⟨t, ht, hdvd⟩ | hshort
      · exact absurd hdvd (hcut t ht)
      · refine ⟨Nat.pos_of_ne_zero fun hzero => hcut s hs ?_, hshort s hs⟩
        rw [hzero]
        exact Nat.dvd_zero _
    obtain ⟨pos, hrun'⟩ := h.writeIndex_returns hcut hio hmallocs
    obtain ⟨-, rfl⟩ := hrun'.unique hrun
    exact h.found hfits

/-- A string that has nothing left is refused, and where all other strings fit nothing is lost. -/
theorem refusesOrFits_of_forall
    (h : ∀ s, Stored mi dt s → s.bytes.length < 2 ^ 16 ∨ 2 ^ 16 ∣ s.bytes.length) :
    RefusesOrFits mi dt := by
  by_contra hnot
  obtain ⟨hcut, s, hs, hlong⟩ := exists_long_of_not_refusesOrFits hnot
  rcases h s hs with hlt | hdvd
  · exact absurd hlong (Nat.not_le_of_gt hlt)
  · exact hcut s hs hdvd

/-- Strings that are too long for their length field are refused exactly if their length is a
multiple of `2 ^ 16`; any other is written without its end. The index as a whole is refused as soon
as one string is, and otherwise it is written and loses every string that is too long. -/
theorem long_strings_refused_iff (h : Storable mi dt) :
    (ElementsRefuse mi dt ∧ IndexRefuses mi dt ∧ SuccessFindsAll mi dt ↔
      ∀ s, Stored mi dt s → s.bytes.length < 2 ^ 16 ∨ 2 ^ 16 ∣ s.bytes.length) ∧
    (IndexRefuses mi dt ↔ RefusesOrFits mi dt) ∧ (SuccessFindsAll mi dt ↔ RefusesOrFits mi dt) := by
  refine ⟨?_, h.indexRefuses_iff, h.successFindsAll_iff⟩
  constructor
  · rintro ⟨helements, -, -⟩
    exact h.elementsRefuse_iff.mp helements
  · intro hall
    have hwhole := refusesOrFits_of_forall hall
    exact ⟨h.elementsRefuse_iff.mpr hall, h.indexRefuses_iff.mpr hwhole,
      h.successFindsAll_iff.mpr hwhole⟩

end Refusal

/-! ## A word of 65537 letters -/

/-- The letter `a`, so many times. -/
def letters (n : ℕ) : CString where
  bytes := List.replicate n 97
  noNul := fun h => by cases List.eq_of_mem_replicate h

theorem length_letters (n : ℕ) : (letters n).bytes.length = n := List.length_replicate

theorem cut_letters (n : ℕ) : cut (letters n) = letters (n % 2 ^ 16) := by
  apply CString.ext
  have htake : (cut (letters n)).bytes =
      (List.replicate n 97).take ((letters n).bytes.length % 2 ^ 16) := rfl
  rw [htake, length_letters, List.take_replicate, Nat.min_eq_left (Nat.mod_le _ _)]
  rfl

/-- A word of `2 ^ 16 + 1` letters. -/
def longWord : CString := letters (2 ^ 16 + 1)

theorem length_longWord : longWord.bytes.length = 2 ^ 16 + 1 := length_letters _

/-- One letter is left of it. -/
theorem cut_longWord : cut longWord = wordA := cut_letters _

theorem storable_longWord : Storable (oneWordIndex longWord) smallDocTable where
  docs := HashTable.wf_singleton _
  index := (wf_oneWordIndex longWord).toWired
  size := by
    have hrecords : cutWords (oneWordIndex longWord).records =
        ⟨[some ⟨wordA, HashTable.singleton ⟨5, LinkedList.singleton 7⟩⟩]⟩ := by
      rw [← cut_longWord]
      rfl
    rw [cutFile, length_fileOf, cutIndexTable, hrecords]
    decide +kernel

/-- The strings of the index. -/
theorem stored_longWord {s : CString} (h : Stored (oneWordIndex longWord) smallDocTable s) :
    s = wordB ∨ s = longWord := by
  rcases h with ⟨kv, hkv, rfl⟩ | ⟨key, set, hget, rfl⟩
  · rw [smallDocTable, dtGetDocidTable, HashTable.entries_singleton, List.mem_singleton] at hkv
    rw [hkv]
    exact .inl rfl
  · obtain ⟨-, rfl⟩ := get?_oneWordIndex hget
    exact .inr rfl

theorem stored_longWord_self : Stored (oneWordIndex longWord) smallDocTable longWord := by
  refine .inr ⟨wordKey longWord, ⟨longWord, HashTable.singleton ⟨5, LinkedList.singleton 7⟩⟩, ?_,
    rfl⟩
  have hmem : (⟨wordKey longWord, 0⟩ : HTKeyValue Addr) ∈
      (oneWordIndex longWord).table.entries := by
    rw [oneWordIndex, HashTable.entries_singleton]
    exact List.mem_cons_self
  rw [(oneWordIndex longWord).get?_of_mem (HashTable.wf_singleton _) hmem]
  rfl

/-- The word is not refused, and is not found again. -/
theorem longWord_lost : ¬ SuccessFindsAll (oneWordIndex longWord) smallDocTable := by
  rw [storable_longWord.successFindsAll_iff]
  have hwordB : wordB.bytes.length = 1 := rfl
  rintro (⟨s, hs, hdvd⟩ | hshort)
  · rcases stored_longWord hs with rfl | rfl
    · rw [hwordB] at hdvd
      exact absurd hdvd (by decide)
    · rw [length_longWord] at hdvd
      exact absurd hdvd (by decide)
  · have hlt := hshort longWord stored_longWord_self
    rw [length_longWord] at hlt
    exact absurd hlt (by decide)

/-- The theorem for this word. -/
theorem long_strings_refused_iff_longWord :
    (ElementsRefuse (oneWordIndex longWord) smallDocTable ∧
        IndexRefuses (oneWordIndex longWord) smallDocTable ∧
        SuccessFindsAll (oneWordIndex longWord) smallDocTable ↔
      ∀ s, Stored (oneWordIndex longWord) smallDocTable s →
        s.bytes.length < 2 ^ 16 ∨ 2 ^ 16 ∣ s.bytes.length) ∧
    (IndexRefuses (oneWordIndex longWord) smallDocTable ↔
      RefusesOrFits (oneWordIndex longWord) smallDocTable) ∧
    (SuccessFindsAll (oneWordIndex longWord) smallDocTable ↔
      RefusesOrFits (oneWordIndex longWord) smallDocTable) :=
  long_strings_refused_iff storable_longWord

end MultithreadedWebServer
