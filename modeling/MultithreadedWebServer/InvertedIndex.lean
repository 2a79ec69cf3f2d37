import MultithreadedWebServer.RankedSearch

/-!
# The words that an index stores

`Indexes` compares an index with a collection of postings by the hashes of the words. An
index also stores the words themselves, since they are written to disk. `Inverted` adds
that each of them is the word of a posting, so that the index has exactly the words of the
collection as soon as the hashes tell these apart.
-/

namespace MultithreadedWebServer

/-- The index has the word, with this posting list for the document. -/
def MemIndex.Maps (index : MemIndex) (word : CString) (docid : UInt64)
    (positions : LinkedList UInt64) : Prop :=
  ∃ set, index.get? (wordKey word) = some set ∧ set.word = word ∧
    set.docIDs.toFinmap.lookup docid = some positions

/-- The index holds the postings of the collection, under words of the collection. -/
structure Inverted (index : MemIndex) (adds : List Posting) : Prop extends Indexes index adds where
  /-- a word that is stored is the word of a posting -/
  stored : ∀ key set, index.get? key = some set → ∃ p ∈ adds, p.word = set.word

section Inverted

variable {index : MemIndex} {adds : List Posting}

/-- The record that `findWordDocSet` returns has the word, or was there before. -/
theorem findWordDocSet_stored (h : index.Wired) {word : CString} {index' : MemIndex} {a : Addr}
    {set : WordDocSet} (hrun : Yields (findWordDocSet index word) (some (index', a)))
    (hread : index'.records.read a = some set) :
    set.word = word ∨ index.get? (wordKey word) = some set := by
  rcases h.records.find (wordKey word) with ⟨a₀, set₀, hfind, -, hread₀, hget⟩ | ⟨hfind, -, hget⟩
  · have hfound : Yields (findWordDocSet index word) (some (index, a₀)) := hfind.bind rfl
    obtain ⟨heq, -⟩ := hrun.unique hfound
    obtain ⟨rfl, rfl⟩ := Prod.mk.inj (Option.some.inj heq)
    obtain rfl := Option.some.inj (hread.symm.trans hread₀)
    exact .inr hget
  · have halloc : Yields (allocateHashTable 64) (some (HashTable.fresh (LinkedList UInt64) 64)) :=
      allocateHashTable_yields (by decide)
    obtain ⟨p, s₁, hlookup, hrun⟩ := Run.bind_eq_ok hrun
    obtain ⟨rfl, rfl⟩ := Run.Returns.unique hlookup hfind
    obtain ⟨made, s₂, hmalloc, hrun⟩ := Run.bind_eq_ok hrun
    obtain ⟨rfl, rfl⟩ := Run.Returns.unique hmalloc malloc_returns
    obtain ⟨docIDs, s₃, hdocs, hrun⟩ := Run.bind_eq_ok hrun
    obtain ⟨rfl, rfl⟩ := Run.Returns.unique hdocs halloc
    obtain ⟨inserted, s₄, -, hrun⟩ := Run.bind_eq_ok hrun
    obtain ⟨u, s₅, -, hrun⟩ := Run.bind_eq_ok hrun
    obtain ⟨heq, -⟩ := Prod.mk.inj (Except.ok.inj hrun)
    obtain ⟨rfl, rfl⟩ := Prod.mk.inj (Option.some.inj heq)
    rw [Arena.read_alloc_self] at hread
    obtain rfl := Option.some.inj hread
    exact .inl rfl

/-- A word that is stored after `MIAddPostingList` is the new one, or was stored before. -/
theorem miAddPostingList_stored (h : index.Wired) {word : CString} {docid : UInt64}
    {positions : LinkedList UInt64} {index' : MemIndex}
    (hroom : (insert (wordKey word) index.keys).card < 2 ^ 32)
    (hrun : Yields (miAddPostingList index word docid positions) (1, index')) :
    ∀ key set, index'.get? key = some set →
      set.word = word ∨ ∃ old, index.get? key = some old ∧ old.word = set.word := by
  obtain ⟨index₁, a, set₁, hfind, h₁, hmem, hread, hother, -, -, -⟩ :=
    findWordDocSet_yields h word hroom
  have hstored := findWordDocSet_stored h hfind hread
  obtain ⟨found, s₁, hfound, hrun⟩ := Run.bind_eq_ok hrun
  obtain ⟨rfl, rfl⟩ := Run.Returns.unique hfound hfind
  dsimp only at hrun
  rw [deref_some hread, Run.pure_bind] at hrun
  obtain ⟨looked, s₂, -, hrun⟩ := Run.bind_eq_ok hrun
  obtain ⟨u, s₃, -, hrun⟩ := Run.bind_eq_ok hrun
  obtain ⟨⟨res, docIDs, old⟩, s₄, -, hrun⟩ := Run.bind_eq_ok hrun
  obtain ⟨u, s₅, -, hrun⟩ := Run.bind_eq_ok hrun
  rw [store_some _ hread, Run.pure_bind] at hrun
  obtain ⟨heq, -⟩ := Prod.mk.inj (Except.ok.inj hrun)
  obtain ⟨-, rfl⟩ := Prod.mk.inj heq
  intro key set hset
  rw [(h₁.records.write hmem _).2 key] at hset
  by_cases hk : key = wordKey word
  · rw [if_pos hk] at hset
    obtain rfl := Option.some.inj hset
    rw [hk]
    rcases hstored with hword | hold
    · exact .inl hword
    · exact .inr ⟨set₁, hold, rfl⟩
  · rw [if_neg hk, hother key hk] at hset
    exact .inr ⟨set, hset, rfl⟩

/-- An index that holds nothing. -/
theorem inverted_nil (hwf : index.WF) (hempty : ∀ key, index.postings key = ∅)
    (hkeys : index.keys = ∅) : Inverted index [] where
  wf := hwf
  filed := fun key docid list => by simp [hempty]
  words := by simp [hkeys]
  stored := fun key set hset => absurd (hempty key) (hwf.postings_ne hset)

/-- `MIAddPostingList` adds a posting. -/
theorem Inverted.add {p : Posting} (h : Inverted index adds) (hp : Postable (adds ++ [p])) :
    ∃ index', Yields (miAddPostingList index p.word p.docid p.positions) (1, index') ∧
      Inverted index' (adds ++ [p]) := by
  obtain ⟨index', hrun, h'⟩ := h.toIndexes.add hp
  have hroom : (insert (wordKey p.word) index.keys).card < 2 ^ 32 := by
    have hkeys : insert (wordKey p.word) index.keys =
        ((adds ++ [p]).map fun p => wordKey p.word).toFinset := by
      ext key
      simp [h.words]
    rw [hkeys]
    exact hp.words
  refine ⟨index', hrun, h', fun key set hset => ?_⟩
  rcases miAddPostingList_stored h.wf.toWired hroom hrun key set hset with
    hword | ⟨old, hold, hword⟩
  · exact ⟨p, List.mem_append_right _ (List.mem_singleton_self p), hword.symm⟩
  · obtain ⟨q, hq, hqword⟩ := h.stored key old hold
    exact ⟨q, List.mem_append_left _ hq, hqword.trans hword⟩

/-- When the hashes tell the words apart, the index has the words, documents and lists of
the collection. -/
theorem Inverted.maps_iff (h : Inverted index adds) (hapart : HashesApart (adds.map Posting.word))
    {word : CString} {docid : UInt64} {positions : LinkedList UInt64} :
    index.Maps word docid positions ↔
      ∃ p ∈ adds, p.word = word ∧ p.docid = docid ∧ p.positions = positions := by
  have hmem : ∀ {p}, p ∈ adds → p.word ∈ adds.map Posting.word := List.mem_map_of_mem
  constructor
  · rintro ⟨set, hget, hword, hlist⟩
    rw [← MemIndex.postings_of_some hget] at hlist
    obtain ⟨p, hp, hkey, hdoc, hpositions⟩ := (h.filed _ _ _).mp hlist
    obtain ⟨q, hq, hqword⟩ := h.stored _ set hget
    have hseen : word ∈ adds.map Posting.word := by
      rw [← hword, ← hqword]
      exact hmem hq
    exact ⟨p, hp, hapart _ (hmem hp) _ hseen hkey, hdoc, hpositions⟩
  · rintro ⟨p, hp, rfl, rfl, rfl⟩
    have hlist := (h.filed _ _ _).mpr ⟨p, hp, rfl, rfl, rfl⟩
    rcases hget : index.get? (wordKey p.word) with _ | set
    · rw [MemIndex.postings_of_none hget] at hlist
      cases hlist
    · obtain ⟨q, hq, hqword⟩ := h.stored _ set hget
      have hkey : wordKey set.word = wordKey p.word := (h.wf.key _ set hget).symm
      rw [← hqword] at hkey
      have hword : q.word = p.word := hapart _ (hmem hq) _ (hmem hp) hkey
      rw [MemIndex.postings_of_some hget] at hlist
      exact ⟨set, hget, hqword.symm.trans hword, hlist⟩

end Inverted

end MultithreadedWebServer
