import Mathlib.Data.List.Nodup
import MultithreadedWebServer.MemIndexRefine

/-!
# `MIProcessQuery` as operations on lists of results

`keepResult m` is what one further word does to one result: drop it, or add to its
rank. The filter loop is `List.filterMap (keepResult m)`, provided the number of
results fits a non-negative `int`; from `2 ^ 31` results on its bound is negative and
the loop does nothing.
-/

namespace MultithreadedWebServer

/-- What the documents of one further word do to a result. -/
def keepResult (m : DocMap) (sr : SearchResult) : Option SearchResult :=
  (m.lookup sr.docid).map fun list =>
    { sr with rank := u32 (sr.rank + numElementsInLinkedList list) }

/-- What all further words do to a result. -/
def keepAll (index : MemIndex) : List CString → SearchResult → Option SearchResult
  | [], sr => some sr
  | word :: words, sr => (keepResult (index.postings (wordKey word)) sr).bind (keepAll index words)

/-- The results are in order of their ranks, best first. -/
def RankOrdered (results : List SearchResult) : Prop :=
  results.Pairwise fun x y => y.rank ≤ x.rank

section Query

variable {σ : Type} {index : MemIndex}

/-! ## Collecting -/

/-- The result a document of the first word starts as. -/
def firstResult (kv : HTKeyValue (LinkedList UInt64)) : SearchResult :=
  ⟨kv.key, numElementsInLinkedList kv.value⟩

/-- The loop over the documents of the first word appends one result each. -/
theorem collectResults_yields {docIDs : HashTable (LinkedList UInt64)} (h : docIDs.WF) :
    ∀ (fuel : ℕ) {it : HTIter} {rest : List (HTKeyValue (LinkedList UInt64))}
      {retlist : LinkedList SearchResult}, Cursor docIDs it rest → rest.length < fuel →
      retlist.WF → retlist.toList.length + rest.length < 2 ^ 32 →
      ∃ retlist', Yields (collectResults docIDs fuel it retlist) (some retlist') ∧ retlist'.WF ∧
        retlist'.toList = retlist.toList ++ rest.map firstResult
  | 0, _, _, _, _, hfuel, _, _ => absurd hfuel (Nat.not_lt_zero _)
  | fuel + 1, it, [], retlist, hc, _, hwf, _ => by
    refine ⟨retlist, ?_, hwf, by simp⟩
    simp [Run.Returns, collectResults, htIteratorPastEnd_spec h hc]
  | fuel + 1, it, kv :: rest, retlist, hc, hfuel, hwf, hlen => by
    rw [List.length_cons] at hfuel hlen
    have hrepr : Repr retlist retlist.cells := hwf
    obtain ⟨list₁, hrepr₁, happ⟩ := appendLinkedList_spec hrepr
      (by rw [LinkedList.toList, List.length_map] at hlen; omega) (firstResult kv)
    have hlist₁ : list₁.toList = retlist.toList ++ [firstResult kv] := by
      rw [hrepr₁.toList_eq, List.map_append]
      rfl
    obtain ⟨it', hnext, hc'⟩ := htIteratorNext_yields h hc
    obtain ⟨list', hrun, hwf', hlist'⟩ := collectResults_yields h fuel hc'
      (by omega) hrepr₁.wf (by rw [hlist₁, List.length_append, List.length_singleton]; omega)
    refine ⟨list', ?_, hwf', by rw [hlist', hlist₁]; simp⟩
    have hnext : htIteratorNext docIDs it [] = _ := hnext
    have hrun : collectResults docIDs fuel it' list₁ [] = _ := hrun
    have happ : appendLinkedList retlist ⟨kv.key, numElementsInLinkedList kv.value⟩ [] = _ :=
      happ []
    simp [Run.Returns, collectResults, htIteratorPastEnd_spec h hc, Run.bind_apply, malloc_apply,
      htIteratorGet_spec h hc, happ, hnext, hrun]

/-! ## Filtering -/

/-- The filter loop, from a cursor to the tail. Deleting leaves the iterator on the
next result; at the tail it falls back, but there the loop is over. -/
theorem filterResults_yields {sets : Arena WordDocSet} {wds : Addr} {set : WordDocSet}
    (hread : sets.read wds = some set) (h : set.docIDs.WF) :
    ∀ (todo : List (Addr × SearchResult)) {pre : List (Addr × SearchResult)} {a : Addr}
      {sr : SearchResult} {retlist : LinkedList SearchResult},
      Repr retlist (pre ++ (a, sr) :: todo) →
      ∃ retlist' cs', Yields (filterResults sets wds (todo.length + 1) ⟨some a⟩ retlist) retlist' ∧
        Repr retlist' cs' ∧ cs'.map Prod.snd =
          pre.map Prod.snd ++ (sr :: todo.map Prod.snd).filterMap (keepResult set.docIDs.toFinmap)
  | todo, pre, a, sr, retlist, hrepr => by
    have hget := llIteratorGetPayload_spec (σ := Schedule) hrepr
    rcases lookupHashTable_yields h sr.docid with ⟨⟨key, list⟩, hkv, rfl, hlook⟩ | ⟨hmiss, hlook⟩
    · -- a hit: the rank is updated and the iterator moves on
      have hlook : lookupHashTable set.docIDs sr.docid [] = _ := hlook
      let sr' : SearchResult := { sr with rank := u32 (sr.rank + numElementsInLinkedList list) }
      have hkeep : keepResult set.docIDs.toFinmap sr = some sr' := by
        rw [keepResult, HashTable.toFinmap, (lookup_asFinmap_iff h.distinct).mpr hkv]
        rfl
      obtain ⟨list₁, hrepr₁, hset⟩ := llSetPayload_spec (σ := Schedule) hrepr sr'
      have hnext := llIteratorNext_spec (σ := Schedule) hrepr₁
      rcases todo with _ | ⟨⟨b, sr₂⟩, todo⟩
      · refine ⟨list₁, _, ?_, hrepr₁, by simp [hkeep]⟩
        simp [Run.Returns, filterResults, hget, deref_some hread, Run.bind_apply, hlook,
          foundValue, sr', hset, hnext]
      · have hrepr₂ : Repr list₁ ((pre ++ [(a, sr')]) ++ (b, sr₂) :: todo) := by
          simpa using hrepr₁
        obtain ⟨list', cs', hrun, hrepr', hcs'⟩ := filterResults_yields hread h todo hrepr₂
        have hrun : filterResults sets wds (todo.length + 1) ⟨some b⟩ list₁ [] = _ := hrun
        refine ⟨list', cs', ?_, hrepr', by rw [hcs']; simp [hkeep]⟩
        rw [List.length_cons]
        simp [Run.Returns, filterResults.eq_def sets wds (todo.length + 1 + 1), hget,
          deref_some hread, Run.bind_apply, hlook, foundValue, sr', hset, hnext, hrun]
    · -- a miss: the result is deleted under the iterator
      have hlook : lookupHashTable set.docIDs sr.docid [] = _ := hlook
      have hkeep : keepResult set.docIDs.toFinmap sr = none := by
        rw [keepResult, HashTable.toFinmap, lookup_asFinmap_of_absent hmiss]
        rfl
      obtain ⟨list₁, hrepr₁, hdel⟩ := llIteratorDelete_spec (σ := Schedule) hrepr
      rcases todo with _ | ⟨⟨b, sr₂⟩, todo⟩
      · refine ⟨list₁, _, ?_, hrepr₁, by simp [hkeep]⟩
        simp [Run.Returns, filterResults, hget, deref_some hread, Run.bind_apply, hlook, hdel]
      · obtain ⟨list', cs', hrun, hrepr', hcs'⟩ := filterResults_yields hread h todo hrepr₁
        have hrun : filterResults sets wds (todo.length + 1) ⟨some b⟩ list₁ [] = _ := hrun
        refine ⟨list', cs', ?_, hrepr', by rw [hcs']; simp [hkeep]⟩
        rw [List.length_cons]
        simp [Run.Returns, filterResults.eq_def sets wds (todo.length + 1 + 1), hget,
          deref_some hread, Run.bind_apply, hlook, hdel, hrun]

/-! ## Sorting -/

theorem sortSwaps_rank (x y : SearchResult) :
    sortSwaps false miSearchListComparator x y = decide (x.rank < y.rank) := by
  unfold sortSwaps miSearchListComparator
  split
  · simp; omega
  · split <;> simp <;> omega

/-- The final sort: the same results, best rank first. -/
theorem sortResults_yields {retlist : LinkedList SearchResult} (h : retlist.WF) :
    ∃ retlist', (sortLinkedList retlist false miSearchListComparator : Run σ _) = pure retlist' ∧
      retlist'.WF ∧ retlist'.toList.Perm retlist.toList ∧ RankOrdered retlist'.toList := by
  have hrepr : Repr retlist retlist.cells := h
  obtain ⟨list', cs', hrepr', -, hperm, hord, hrun⟩ := sortLinkedList_spec (σ := σ) hrepr false
    miSearchListComparator
    (fun x y hxy => by
      simp only [sortSwaps_rank, decide_eq_true_eq, decide_eq_false_iff_not] at *; omega)
    (fun x y z hxy hyz => by simp only [sortSwaps_rank, decide_eq_false_iff_not] at *; omega)
  refine ⟨list', hrun, hrepr'.wf, ?_, ?_⟩
  · rw [hrepr'.toList_eq]
    exact hperm
  · rw [hrepr'.toList_eq, RankOrdered]
    refine hord.imp fun {x y} hxy => ?_
    rw [sortSwaps_rank, decide_eq_false_iff_not] at hxy
    exact Nat.not_lt.mp hxy

/-! ## The further words -/

theorem toInt_of_lt {n : ℕ} (h : n < 2 ^ 31) : (toInt n).toNat = n := by
  unfold toInt
  rw [Int.bmod_def]
  omega

/-- From `2 ^ 31` on the `int` is negative. -/
theorem toInt_of_ge {n : ℕ} (h : 2 ^ 31 ≤ n) (hn : n < 2 ^ 32) : (toInt n).toNat = 0 := by
  unfold toInt
  rw [Int.bmod_def]
  omega

/-- The loop over the further words while the number of results fits an `int`. -/
theorem intersectWords_yields (h : index.Wired) : ∀ (words : List CString)
    {retlist : LinkedList SearchResult}, retlist.WF → retlist.toList ≠ [] →
    retlist.toList.length < 2 ^ 31 →
    (retlist.toList.filterMap (keepAll index words) = [] ∧
      Yields (intersectWords index words retlist) none) ∨
    (retlist.toList.filterMap (keepAll index words) ≠ [] ∧
      ∃ retlist', Yields (intersectWords index words retlist) (some retlist') ∧ retlist'.WF ∧
        retlist'.toList.Perm (retlist.toList.filterMap (keepAll index words)) ∧
        RankOrdered retlist'.toList)
  | [], retlist, hwf, hne, _ => by
    obtain ⟨list', hrun, hwf', hperm, hord⟩ := sortResults_yields (σ := Schedule) hwf
    have hall : retlist.toList.filterMap (keepAll index []) = retlist.toList := by
      simp [keepAll, List.filterMap_some]
    rw [hall]
    exact .inr ⟨hne, list', by simp [Run.Returns, intersectWords, hrun], hwf', hperm, hord⟩
  | word :: words, retlist, hwf, hne, hlen => by
    have hsplit : retlist.toList.filterMap (keepAll index (word :: words)) =
        (retlist.toList.filterMap (keepResult (index.postings (wordKey word)))).filterMap
          (keepAll index words) := by
      rw [List.filterMap_filterMap]
      rfl
    rw [hsplit]
    rcases h.lookup_word (wordKey word) with
      ⟨a, set, hlook, hread, hget, hdocs, hp⟩ | ⟨hp, hlook⟩
    · have hlook : lookupHashTable index.table (wordKey word) [] = _ := hlook
      rw [hp]
      rcases hcells : retlist.cells with _ | ⟨⟨b, sr⟩, cs⟩
      · exact absurd (by rw [LinkedList.toList, hcells]; rfl) hne
      have hrepr : Repr retlist ([] ++ (b, sr) :: cs) := hcells ▸ hwf
      have hit : llMakeIterator retlist 0 [] = _ := llMakeIterator_yields hrepr
      have hlist : retlist.toList = sr :: cs.map Prod.snd := hrepr.toList_eq
      have hcount : (toInt retlist.numElements).toNat = cs.length + 1 := by
        rw [hwf.numElements_eq, toInt_of_lt hlen, hlist, List.length_cons, List.length_map]
      obtain ⟨list₁, cs₁, hfilter, hrepr₁, hcs₁⟩ := filterResults_yields hread hdocs cs hrepr
      have hfilter : filterResults index.records a (cs.length + 1) ⟨some b⟩ retlist [] = _ :=
        hfilter
      have hlist₁ : list₁.toList = retlist.toList.filterMap (keepResult set.docIDs.toFinmap) := by
        rw [hrepr₁.toList_eq, hcs₁, hlist]
        rfl
      by_cases hempty : list₁.toList = []
      · have hz : list₁.numElements = 0 := by rw [hrepr₁.wf.numElements_eq, hempty]; rfl
        rw [← hlist₁, hempty]
        refine .inl ⟨rfl, ?_⟩
        simp [Run.Returns, intersectWords, Run.bind_apply, hlook, numElementsInLinkedList, hit,
          foundValue, hcount, hfilter, hz, freeLinkedList_spec hrepr₁]
      · have hz : list₁.numElements ≠ 0 := by
          rw [hrepr₁.wf.numElements_eq]
          exact fun hz => hempty (List.length_eq_zero_iff.mp hz)
        have hlen₁ : list₁.toList.length < 2 ^ 31 := by
          rw [hlist₁]
          exact Nat.lt_of_le_of_lt (List.length_filterMap_le _ _) hlen
        have hstep : intersectWords index (word :: words) retlist [] =
            intersectWords index words list₁ [] := by
          simp [intersectWords, Run.bind_apply, hlook, numElementsInLinkedList, hit, foundValue,
            hcount, hfilter, hz]
        rw [← hlist₁, Yields, Run.Returns, hstep]
        rcases intersectWords_yields h words hrepr₁.wf hempty hlen₁ with
          hnone | ⟨hsome, list', hrun, hrest⟩
        · exact .inl hnone
        · refine .inr ⟨hsome, list', ?_, hrest⟩
          rw [Yields, Run.Returns, hstep]
          exact hrun
    · have hlook : lookupHashTable index.table (wordKey word) [] = _ := hlook
      have hdrop : ∀ sr, keepResult (∅ : DocMap) sr = none := fun _ => rfl
      have hnil : retlist.toList.filterMap (keepResult (∅ : DocMap)) = [] :=
        List.filterMap_eq_nil_iff.mpr fun sr _ => hdrop sr
      rw [hp, hnil]
      refine .inl ⟨rfl, ?_⟩
      simp [Run.Returns, intersectWords, Run.bind_apply, hlook, freeLinkedList_spec hwf]

/-- From `2 ^ 31` results on the further words filter nothing; only a word that is
nowhere still makes a difference. -/
theorem intersectWords_unfiltered (h : index.WF) : ∀ (words : List CString)
    {retlist : LinkedList SearchResult}, retlist.WF → 2 ^ 31 ≤ retlist.toList.length →
    ((∃ word ∈ words, index.postings (wordKey word) = ∅) ∧
      Yields (intersectWords index words retlist) none) ∨
    ((∀ word ∈ words, index.postings (wordKey word) ≠ ∅) ∧
      ∃ retlist', Yields (intersectWords index words retlist) (some retlist') ∧ retlist'.WF ∧
        retlist'.toList.Perm retlist.toList ∧ RankOrdered retlist'.toList)
  | [], retlist, hwf, _ => by
    obtain ⟨list', hrun, hrest⟩ := sortResults_yields (σ := Schedule) hwf
    refine .inr ⟨fun word hword => absurd hword List.not_mem_nil, list', ?_, hrest⟩
    simp [Run.Returns, intersectWords, hrun]
  | word :: words, retlist, hwf, hge => by
    rcases h.lookup_word (wordKey word) with
      ⟨a, set, hlook, hread, hget, hdocs, hp⟩ | ⟨hp, hlook⟩
    · have hlook : lookupHashTable index.table (wordKey word) [] = _ := hlook
      have hhere : index.postings (wordKey word) ≠ ∅ := h.postings_ne hget
      have hsmall : retlist.toList.length < 2 ^ 32 := by
        rw [LinkedList.toList, List.length_map]
        exact hwf.small
      have hcount : (toInt retlist.numElements).toNat = 0 := by
        rw [hwf.numElements_eq, toInt_of_ge hge hsmall]
      have hz : retlist.numElements ≠ 0 := by rw [hwf.numElements_eq]; omega
      rcases hcells : retlist.cells with _ | ⟨c, cs⟩
      · rw [LinkedList.toList, hcells] at hge
        exact absurd hge (by decide)
      have hit : llMakeIterator retlist 0 [] = _ :=
        llMakeIterator_yields (show Repr retlist (c :: cs) from hcells ▸ hwf)
      have hstep : intersectWords index (word :: words) retlist [] =
          intersectWords index words retlist [] := by
        simp [intersectWords, Run.bind_apply, hlook, numElementsInLinkedList, hit, foundValue,
          hcount, filterResults, hz]
      rw [Yields, Run.Returns, hstep]
      rcases intersectWords_unfiltered h words hwf hge with
        ⟨⟨w, hw, hnone⟩, hrun⟩ | ⟨hall, list', hrun, hrest⟩
      · exact .inl ⟨⟨w, List.mem_cons_of_mem _ hw, hnone⟩, hrun⟩
      · refine .inr ⟨fun w hw => ?_, list', ?_, hrest⟩
        · rcases List.mem_cons.mp hw with rfl | hw
          · exact hhere
          · exact hall w hw
        · rw [Yields, Run.Returns, hstep]
          exact hrun
    · have hlook : lookupHashTable index.table (wordKey word) [] = _ := hlook
      refine .inl ⟨⟨word, List.mem_cons_self, hp⟩, ?_⟩
      simp [Run.Returns, intersectWords, Run.bind_apply, hlook, freeLinkedList_spec hwf]

/-! ## The first word -/

/-- The documents of the first word, as results. -/
structure FirstResults (m : DocMap) (results : List SearchResult) : Prop where
  /-- one result a document -/
  nodup : (results.map SearchResult.docid).Nodup
  /-- with the length of its posting list as the rank -/
  mem : ∀ sr, sr ∈ results ↔
    ∃ list, m.lookup sr.docid = some list ∧ sr.rank = numElementsInLinkedList list
  /-- as many results as documents -/
  length : results.length = m.keys.card

theorem firstResults_entries {docIDs : HashTable (LinkedList UInt64)} (h : docIDs.WF) :
    FirstResults docIDs.toFinmap (docIDs.entries.map firstResult) where
  nodup := by
    rw [List.map_map]
    exact h.distinct
  mem := fun sr => by
    rw [List.mem_map]
    constructor
    · rintro ⟨kv, hkv, rfl⟩
      exact ⟨kv.value, lookup_asFinmap_of_mem h.distinct hkv, rfl⟩
    · rintro ⟨list, hl, hrank⟩
      refine ⟨⟨sr.docid, list⟩, (lookup_asFinmap_iff h.distinct).mp hl, ?_⟩
      rw [firstResult, ← hrank]
  length := by rw [List.length_map, HashTable.toFinmap, card_asFinmap h.distinct]

/-- `MIProcessQuery` gives up on a first word that is nowhere, and goes on with its
documents otherwise. -/
theorem miProcessQuery_first (h : index.WF) (word : CString) (words : List CString) :
    (index.postings (wordKey word) = ∅ ∧
      Yields (miProcessQuery index (word :: words)) none) ∨
    ∃ retlist, retlist.WF ∧ retlist.toList ≠ [] ∧
      FirstResults (index.postings (wordKey word)) retlist.toList ∧
      miProcessQuery index (word :: words) [] = intersectWords index words retlist [] := by
  have halloc : (allocateLinkedList : Run Schedule (Option (LinkedList SearchResult))) [] = _ :=
    allocateLinkedList_yields
  rcases h.lookup_word (wordKey word) with
    ⟨a, set, hlook, hread, hget, hdocs, hp⟩ | ⟨hp, hlook⟩
  · have hlook : lookupHashTable index.table (wordKey word) [] = _ := hlook
    have hne : set.docIDs.entries ≠ [] := h.occurs _ set hget
    have hpos : 0 < set.docIDs.numElements := by
      rw [hdocs.count]
      exact List.length_pos_iff.mpr hne
    have hempty : (LinkedList.empty : LinkedList SearchResult).toList = [] :=
      repr_empty.toList_eq
    obtain ⟨it, hmake, hc⟩ := hashTableMakeIterator_yields hdocs
    obtain ⟨retlist, hcollect, hwf, hlist⟩ := collectResults_yields hdocs
      (set.docIDs.numElements + 1) hc (by rw [hdocs.count]; omega)
      (repr_empty (α := SearchResult)).wf
      (by rw [hempty, List.length_nil, Nat.zero_add]; exact hdocs.fits)
    rw [hempty, List.nil_append] at hlist
    have hmake : hashTableMakeIterator set.docIDs [] = _ := hmake
    have hcollect : collectResults set.docIDs _ it LinkedList.empty [] = _ := hcollect
    refine .inr ⟨retlist, hwf, ?_, ?_, ?_⟩
    · rw [hlist]
      exact fun hnil => hne (List.map_eq_nil_iff.mp hnil)
    · rw [hp, hlist]
      exact firstResults_entries hdocs
    · simp [miProcessQuery, Run.bind_apply, halloc, hlook, foundValue, deref_some hread,
        numElementsInHashTable, hpos, hmake, hcollect]
  · have hlook : lookupHashTable index.table (wordKey word) [] = _ := hlook
    refine .inl ⟨hp, ?_⟩
    simp [Run.Returns, miProcessQuery, Run.bind_apply, halloc, hlook,
      freeLinkedList_spec (repr_empty (α := SearchResult))]

/-! ## What the further words add up to -/

/-- The number of positions of a word in a document. -/
def MemIndex.hits (index : MemIndex) (word : CString) (docid : UInt64) : ℕ :=
  match (index.postings (wordKey word)).lookup docid with
  | some list => numElementsInLinkedList list
  | none => 0

/-- A document has a posting for a word. -/
def MemIndex.Has (index : MemIndex) (word : CString) (docid : UInt64) : Prop :=
  ((index.postings (wordKey word)).lookup docid).isSome = true

/-- The further words leave the document of a result alone. -/
theorem keepAll_docid : ∀ (words : List CString) {sr sr' : SearchResult},
    keepAll index words sr = some sr' → sr'.docid = sr.docid
  | [], _, _, h => by rw [Option.some.inj h]
  | word :: words, sr, sr', h => by
    obtain ⟨sr₁, hkeep, hrest⟩ := Option.bind_eq_some_iff.mp h
    obtain ⟨list, -, rfl⟩ := Option.map_eq_some_iff.mp hkeep
    have ih := keepAll_docid words hrest
    exact ih

/-- A result survives the further words exactly if its document has them all; its rank
grows by their hits. -/
theorem keepAll_eq_some_iff : ∀ (words : List CString) {sr sr' : SearchResult},
    sr.rank < 2 ^ 32 →
    (keepAll index words sr = some sr' ↔ (∀ word ∈ words, index.Has word sr.docid) ∧
      sr' = ⟨sr.docid, u32 (sr.rank + (words.map (index.hits · sr.docid)).sum)⟩)
  | [], sr, sr', hr => by
    have hu : u32 sr.rank = sr.rank := u32_of_lt hr
    simp only [keepAll, Option.some.injEq, List.not_mem_nil, false_imp_iff, implies_true,
      List.map_nil, List.sum_nil, Nat.add_zero, hu, true_and]
    exact eq_comm
  | word :: words, sr, sr', hr => by
    rcases hl : (index.postings (wordKey word)).lookup sr.docid with _ | list
    · simp [keepAll, keepResult, hl, MemIndex.Has]
    · have ih := @keepAll_eq_some_iff words _ sr'
        (show (⟨sr.docid, u32 (sr.rank + numElementsInLinkedList list)⟩ : SearchResult).rank
          < 2 ^ 32 from u32_lt _)
      have hsum : u32 (u32 (sr.rank + numElementsInLinkedList list) +
            (words.map (index.hits · sr.docid)).sum) =
          u32 (sr.rank + (((word :: words).map (index.hits · sr.docid)).sum)) := by
        have hhits : index.hits word sr.docid = numElementsInLinkedList list := by
          rw [MemIndex.hits, hl]
        rw [List.map_cons, List.sum_cons, hhits]
        unfold u32
        omega
      have hstep : keepAll index (word :: words) sr =
          keepAll index words ⟨sr.docid, u32 (sr.rank + numElementsInLinkedList list)⟩ := by
        simp [keepAll, keepResult, hl]
      rw [hstep, ih, hsum, List.forall_mem_cons]
      simp [MemIndex.Has, hl]

end Query

end MultithreadedWebServer
