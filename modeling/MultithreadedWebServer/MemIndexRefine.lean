import MultithreadedWebServer.MemIndex

/-!
# The inverted index refines a family of finite maps

`MemIndex.postings index key` is the finite map from documents to posting lists that
the index holds under a word key, empty when there is none. `MIAddPostingList` inserts
into one of these maps; the loops of `MIProcessQuery` are list operations that look
documents up in them.
-/

namespace MultithreadedWebServer

/-- From documents to posting lists. -/
abbrev DocMap : Type := Finmap fun _ : UInt64 => LinkedList UInt64

/-! ## The invariant -/

/-- The pointers of the index are good and the inner tables are tables of posting
lists. A `WordDocSet` without documents is still allowed. -/
structure MemIndex.Wired (index : MemIndex) : Prop where
  /-- the outer table -/
  records : RecordTable.WF index
  /-- a `WordDocSet` is filed under its word -/
  key : ∀ key set, index.get? key = some set → key = wordKey set.word
  /-- the inner tables -/
  docIDs : ∀ key set, index.get? key = some set → set.docIDs.WF
  /-- of non-empty lists -/
  lists : ∀ key set, index.get? key = some set →
    ∀ e ∈ set.docIDs.entries, e.value.WF ∧ e.value.toList ≠ []

/-- The index invariant: a word that is in the index is in some document. -/
structure MemIndex.WF (index : MemIndex) : Prop extends index.Wired where
  /-- no word without documents -/
  occurs : ∀ key set, index.get? key = some set → set.docIDs.entries ≠ []

/-- The posting lists filed under a key, by document. -/
def MemIndex.postings (index : MemIndex) (key : UInt64) : DocMap :=
  match index.get? key with
  | some set => set.docIDs.toFinmap
  | none => ∅

section Refine

variable {index : MemIndex}

theorem MemIndex.postings_of_some {key : UInt64} {set : WordDocSet}
    (h : index.get? key = some set) : index.postings key = set.docIDs.toFinmap := by
  rw [postings, h]

theorem MemIndex.postings_of_none {key : UInt64} (h : index.get? key = none) :
    index.postings key = ∅ := by
  rw [postings, h]

/-- Looking up a word: its pair and its `WordDocSet`, or nothing at all. -/
theorem MemIndex.Wired.lookup_word (h : index.Wired) (key : UInt64) :
    (∃ a set, Yields (lookupHashTable index.table key) (1, some ⟨key, a⟩) ∧
      index.records.read a = some set ∧ index.get? key = some set ∧ set.docIDs.WF ∧
      index.postings key = set.docIDs.toFinmap) ∨
    (index.postings key = ∅ ∧ Yields (lookupHashTable index.table key) (0, none)) := by
  rcases h.records.find key with ⟨a, set, hrun, -, hread, hget⟩ | ⟨hrun, -, hget⟩
  · exact .inl ⟨a, set, hrun, hread, hget, h.docIDs key set hget,
      MemIndex.postings_of_some hget⟩
  · exact .inr ⟨MemIndex.postings_of_none hget, hrun⟩

/-- Every posting list is a non-empty list. -/
theorem MemIndex.Wired.posting_wf (h : index.Wired) {key docid : UInt64}
    {list : LinkedList UInt64} (hl : (index.postings key).lookup docid = some list) :
    list.WF ∧ list.toList ≠ [] := by
  rcases hget : index.get? key with _ | set
  · rw [MemIndex.postings_of_none hget] at hl
    cases hl
  · rw [MemIndex.postings_of_some hget, HashTable.toFinmap,
      lookup_asFinmap_iff (h.docIDs key set hget).distinct] at hl
    exact h.lists key set hget _ hl

/-- In an index, nothing is filed under a key exactly if the key is not there. -/
theorem MemIndex.WF.postings_ne (h : index.WF) {key : UInt64} {set : WordDocSet}
    (hget : index.get? key = some set) : index.postings key ≠ ∅ := by
  obtain ⟨e, he⟩ := List.exists_mem_of_ne_nil _ (h.occurs key set hget)
  have hl := lookup_asFinmap_of_mem (h.docIDs key set hget).distinct he
  rw [MemIndex.postings_of_some hget]
  intro hempty
  rw [← HashTable.toFinmap, hempty] at hl
  cases hl

/-! ## Building -/

/-- A new index holds nothing. -/
theorem allocateMemIndex_yields :
    ∃ index, Yields allocateMemIndex index ∧ index.WF ∧ (∀ key, index.postings key = ∅) ∧
      index.keys = ∅ := by
  have hrun : allocateHashTable 128 [] = _ := allocateHashTable_yields (V := Addr) (by decide)
  have hnone : ∀ key, RecordTable.get? ⟨HashTable.fresh Addr 128, Arena.empty⟩ key =
    (none : Option WordDocSet) := RecordTable.get?_fresh 128
  refine ⟨⟨HashTable.fresh Addr 128, Arena.empty⟩, ?_, ⟨⟨?_, ?_, ?_, ?_⟩, ?_⟩, ?_,
    RecordTable.keys_fresh 128⟩
  · simp [Run.Returns, allocateMemIndex, Run.bind_apply, hrun]
  · exact RecordTable.wf_fresh (by decide) (by decide)
  · exact fun key set hset => by simp [hnone] at hset
  · exact fun key set hset => by simp [hnone] at hset
  · exact fun key set hset => by simp [hnone] at hset
  · exact fun key set hset => by simp [hnone] at hset
  · exact fun key => MemIndex.postings_of_none (hnone key)

/-- The first half of `MIAddPostingList` makes sure the word is there, without changing
what is filed. -/
theorem findWordDocSet_yields (h : index.Wired) (word : CString)
    (hroom : (insert (wordKey word) index.keys).card < 2 ^ 32) :
    ∃ index' a set, Yields (findWordDocSet index word) (some (index', a)) ∧ index'.Wired ∧
      ⟨wordKey word, a⟩ ∈ index'.table.entries ∧ index'.records.read a = some set ∧
      (∀ key, key ≠ wordKey word → index'.get? key = index.get? key) ∧
      index'.get? (wordKey word) = some set ∧
      set.docIDs.toFinmap = index.postings (wordKey word) ∧
      index'.keys = insert (wordKey word) index.keys := by
  rcases h.records.find (wordKey word) with ⟨a, set, hrun, hmem, hread, hget⟩ | ⟨hrun, -, hget⟩
  · have hrun : lookupHashTable index.table (wordKey word) [] = _ := hrun
    refine ⟨index, a, set, ?_, h, hmem, hread, fun _ _ => rfl, hget,
      (MemIndex.postings_of_some hget).symm, ?_⟩
    · simp [Run.Returns, findWordDocSet, Run.bind_apply, hrun, foundValue]
    · refine (Finset.insert_eq_self.mpr (h.records.mem_keys.mpr ?_)).symm
      exact Option.isSome_of_eq_some hget
  · have hrun : lookupHashTable index.table (wordKey word) [] = _ := hrun
    have halloc : allocateHashTable 64 [] = _ :=
      allocateHashTable_yields (V := LinkedList UInt64) (by decide)
    let set : WordDocSet := ⟨word, HashTable.fresh _ 64⟩
    obtain ⟨table, hins, hwf, hmem, hget', hkeys⟩ := h.records.insert hget hroom set
    have hins : insertHashTable index.table ⟨wordKey word, index.records.fresh⟩ [] = _ := hins
    have hself := (hget' (wordKey word)).trans (if_pos rfl)
    -- a key either leads to the new set or is an old one
    have hcases : ∀ key set', RecordTable.get? ⟨table, index.records.alloc set⟩ key = some set' →
        key = wordKey word ∧ set' = set ∨ index.get? key = some set' := by
      intro key set' hset'
      rw [hget'] at hset'
      by_cases hk : key = wordKey word
      · rw [if_pos hk] at hset'
        exact .inl ⟨hk, (Option.some.inj hset').symm⟩
      · rw [if_neg hk] at hset'
        exact .inr hset'
    refine ⟨⟨table, index.records.alloc set⟩, index.records.fresh, set, ?_, ⟨hwf, ?_, ?_, ?_⟩,
      hmem, Arena.read_alloc_self _ _, ?_, hself, ?_, hkeys⟩
    · simp [Run.Returns, findWordDocSet, Run.bind_apply, hrun, malloc_apply, halloc, hins, set]
    · intro key set' hset'
      rcases hcases key set' hset' with ⟨rfl, rfl⟩ | hold
      · rfl
      · exact h.key key set' hold
    · intro key set' hset'
      rcases hcases key set' hset' with ⟨rfl, rfl⟩ | hold
      · exact HashTable.wf_fresh (by decide) (by decide)
      · exact h.docIDs key set' hold
    · intro key set' hset'
      rcases hcases key set' hset' with ⟨rfl, rfl⟩ | hold
      · intro e he
        simp [set] at he
      · exact h.lists key set' hold
    · intro key hk
      exact (hget' key).trans (if_neg hk)
    · rw [MemIndex.postings_of_none hget, HashTable.toFinmap, HashTable.fresh_entries]
      rfl

/-- `MIAddPostingList` files a posting list for a document that has none under the
word. -/
theorem miAddPostingList_yields (h : index.WF) {word : CString} {docid : UInt64}
    {positions : LinkedList UInt64}
    (hroom : (insert (wordKey word) index.keys).card < 2 ^ 32)
    (hdocs : (index.postings (wordKey word)).keys.card + 1 < 2 ^ 32)
    (hnew : (index.postings (wordKey word)).lookup docid = none) (hwf : positions.WF)
    (hne : positions.toList ≠ []) :
    ∃ index', Yields (miAddPostingList index word docid positions) (1, index') ∧ index'.WF ∧
      (∀ key, index'.postings key = if key = wordKey word
        then (index.postings key).insert docid positions else index.postings key) ∧
      index'.keys = insert (wordKey word) index.keys := by
  obtain ⟨index₁, a, set, hfind, h₁, hmem, hread, hother, hself, hmap, hkeys⟩ :=
    findWordDocSet_yields h.toWired word hroom
  have hdwf := h₁.docIDs _ _ hself
  rw [← hmap] at hdocs hnew
  rw [HashTable.toFinmap, card_asFinmap hdwf.distinct, ← hdwf.count] at hdocs
  have hlook : lookupHashTable set.docIDs docid [] = _ := lookupHashTable_toFinmap hdwf docid
  rw [hnew] at hlook
  have hfresh : ∀ e ∈ set.docIDs.entries, e.key ≠ docid := by
    rintro e he rfl
    rw [HashTable.toFinmap, lookup_asFinmap_of_mem hdwf.distinct he] at hnew
    cases hnew
  obtain ⟨docIDs, hins, hdwf', hperm⟩ := insertHashTable_fresh hdwf hdocs
    (show ∀ e ∈ set.docIDs.entries,
      e.key ≠ (⟨docid, positions⟩ : HTKeyValue (LinkedList UInt64)).key from hfresh)
  have hins : insertHashTable set.docIDs ⟨docid, positions⟩ [] = _ := hins
  have hfind : findWordDocSet index word [] = _ := hfind
  let set' : WordDocSet := { set with docIDs := docIDs }
  obtain ⟨hwf', hget'⟩ := h₁.records.write hmem set'
  have hmap' : docIDs.toFinmap = (index.postings (wordKey word)).insert docid positions := by
    rw [← hmap, HashTable.toFinmap, asFinmap_perm hdwf'.distinct hperm, asFinmap_cons]
    rfl
  -- a key either leads to the changed set or to what it led to before
  have hcases : ∀ key s, RecordTable.get? { index₁ with records := index₁.records.write a set' }
      key = some s →
        key = wordKey word ∧ s = set' ∨ key ≠ wordKey word ∧ index.get? key = some s := by
    intro key s hs
    rw [hget'] at hs
    by_cases hk : key = wordKey word
    · rw [if_pos hk] at hs
      exact .inl ⟨hk, (Option.some.inj hs).symm⟩
    · rw [if_neg hk, hother key hk] at hs
      exact .inr ⟨hk, hs⟩
  refine ⟨{ index₁ with records := index₁.records.write a set' }, ?_,
    ⟨⟨hwf', ?_, ?_, ?_⟩, ?_⟩, fun key => ?_, hkeys⟩
  · simp [Run.Returns, miAddPostingList, Run.bind_apply, hfind, deref_some hread, hlook, hins,
      store_some _ hread, set']
  · intro key s hs
    rcases hcases key s hs with ⟨rfl, rfl⟩ | ⟨-, hold⟩
    · have hkey := h₁.key _ _ hself
      exact hkey
    · exact h.key key s hold
  · intro key s hs
    rcases hcases key s hs with ⟨rfl, rfl⟩ | ⟨-, hold⟩
    · exact hdwf'
    · exact h.docIDs key s hold
  · intro key s hs
    rcases hcases key s hs with ⟨rfl, rfl⟩ | ⟨-, hold⟩
    · intro e he
      rcases List.mem_cons.mp (hperm.mem_iff.mp he) with rfl | he
      · exact ⟨hwf, hne⟩
      · exact h₁.lists _ _ hself e he
    · exact h.lists key s hold
  · intro key s hs
    rcases hcases key s hs with ⟨rfl, rfl⟩ | ⟨-, hold⟩
    · exact List.ne_nil_of_mem (hperm.mem_iff.mpr List.mem_cons_self)
    · exact h.occurs key s hold
  · by_cases hk : key = wordKey word
    · rw [if_pos hk, hk, ← hmap']
      exact MemIndex.postings_of_some ((hget' _).trans (if_pos rfl))
    · rw [if_neg hk, MemIndex.postings, (hget' key).trans (if_neg hk), hother key hk,
        MemIndex.postings]

end Refine

end MultithreadedWebServer
