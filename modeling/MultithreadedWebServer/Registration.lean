import MultithreadedWebServer.DocTable

/-!
# Document ids in order

When names are registered whose hashes differ, the documents are numbered from 1 on in the
order in which their names came. `Registered` ties the two tables of a `DocTable` to the list
of the names.
-/

namespace MultithreadedWebServer

/-- The id of the document with this number. -/
def docIdOf (i : ℕ) : UInt64 := UInt64.ofNat (i + 1)

/-- What the table from ids to names holds. -/
def docEntries (names : List CString) : List (HTKeyValue CString) :=
  names.zipIdx.map fun n => ⟨docIdOf n.2, n.1⟩

/-- What the table from the hashes of the names to the ids holds. -/
def nameEntries (names : List CString) : List (HTKeyValue UInt64) :=
  names.zipIdx.map fun n => ⟨wordKey n.1, docIdOf n.2⟩

/-- The names have been registered in this order. -/
structure Registered (dt : DocTable) (names : List CString) : Prop where
  /-- the first table -/
  docs : dt.docidToDocname.WF
  /-- the second table -/
  ids : dt.docnameToDocid.WF
  /-- as many ids as names -/
  maxId : dt.maxId = UInt64.ofNat names.length
  /-- from ids to names -/
  toName : dt.docidToDocname.entries.Perm (docEntries names)
  /-- and back -/
  toDocid : dt.docnameToDocid.entries.Perm (nameEntries names)

section Registered

variable {dt : DocTable} {names : List CString}

theorem docIdOf_inj {i j : ℕ} (hi : i + 1 < 2 ^ 32) (hj : j + 1 < 2 ^ 32)
    (h : docIdOf i = docIdOf j) : i = j := by
  have hnat := congrArg UInt64.toNat h
  rw [docIdOf, docIdOf, UInt64.toNat_ofNat', UInt64.toNat_ofNat'] at hnat
  omega

theorem mem_docEntries {kv : HTKeyValue CString} :
    kv ∈ docEntries names ↔ ∃ i, names[i]? = some kv.value ∧ kv.key = docIdOf i := by
  rw [docEntries, List.mem_map]
  constructor
  · rintro ⟨⟨name, i⟩, hmem, rfl⟩
    exact ⟨i, List.mk_mem_zipIdx_iff_getElem?.mp hmem, rfl⟩
  · rintro ⟨i, hname, hkey⟩
    refine ⟨(kv.value, i), List.mk_mem_zipIdx_iff_getElem?.mpr hname, ?_⟩
    rw [← hkey]

/-- A document is found under its id. -/
theorem Registered.lookup_iff (h : Registered dt names) {docid : UInt64} {name : CString} :
    (dtGetDocidTable dt).toFinmap.lookup docid = some name ↔
      ∃ i, names[i]? = some name ∧ docid = docIdOf i := by
  rw [dtGetDocidTable, HashTable.toFinmap, lookup_asFinmap_iff h.docs.distinct,
    h.toName.mem_iff, mem_docEntries]

/-- `DTRegisterDocumentName` gives a new name the next id. -/
theorem Registered.register (h : Registered dt names) (hroom : names.length + 1 < 2 ^ 32)
    {docname : CString} (hnew : ∀ name ∈ names, wordKey name ≠ wordKey docname) :
    ∃ dt', Yields (dtRegisterDocumentName dt docname) (docIdOf names.length, dt') ∧
      Registered dt' (names ++ [docname]) := by
  have hdocid : dt.maxId + 1 = docIdOf names.length := by
    rw [h.maxId, docIdOf, UInt64.ofNat_add]
    rfl
  have hdocs : dt.docidToDocname.numElements + 1 < 2 ^ 32 := by
    rw [h.docs.count, h.toName.length_eq, docEntries, List.length_map, List.length_zipIdx]
    exact hroom
  have hids : dt.docnameToDocid.numElements + 1 < 2 ^ 32 := by
    rw [h.ids.count, h.toDocid.length_eq, nameEntries, List.length_map, List.length_zipIdx]
    exact hroom
  have hfresh : ∀ e ∈ dt.docidToDocname.entries, e.key ≠ dt.maxId + 1 := by
    intro e he heq
    obtain ⟨i, hname, hkey⟩ := mem_docEntries.mp (h.toName.mem_iff.mp he)
    have hlt := (List.getElem?_eq_some_iff.mp hname).1
    rw [hkey, hdocid] at heq
    have hi := docIdOf_inj (by omega) hroom heq
    omega
  have hmiss : ∀ e ∈ dt.docnameToDocid.entries, e.key ≠ wordKey docname := by
    intro e he heq
    have hmem := h.toDocid.mem_iff.mp he
    obtain ⟨⟨name, i⟩, hname, rfl⟩ := List.mem_map.mp hmem
    exact hnew name (List.fst_mem_of_mem_zipIdx hname) heq
  have hlookup : Yields (lookupHashTable dt.docnameToDocid (wordKey docname)) (0, none) := by
    rcases lookupHashTable_yields h.ids (wordKey docname) with ⟨kv, hkv, hkey, -⟩ | ⟨-, hrun⟩
    · exact absurd hkey (hmiss kv hkv)
    · exact hrun
  obtain ⟨docs', hinsDocs, hwfDocs, hpermDocs⟩ := insertHashTable_fresh h.docs hdocs
    (show ∀ e ∈ dt.docidToDocname.entries,
      e.key ≠ (⟨dt.maxId + 1, docname⟩ : HTKeyValue CString).key from hfresh)
  obtain ⟨ids', hinsIds, hwfIds, hpermIds⟩ := insertHashTable_fresh h.ids hids
    (show ∀ e ∈ dt.docnameToDocid.entries,
      e.key ≠ (⟨wordKey docname, dt.maxId + 1⟩ : HTKeyValue UInt64).key from hmiss)
  have hnext : (names ++ [docname]).zipIdx = names.zipIdx ++ [(docname, names.length)] := by
    rw [List.zipIdx_append, Nat.zero_add]
    rfl
  refine ⟨⟨docs', ids', dt.maxId + 1⟩, ?_, hwfDocs, hwfIds, ?_, ?_, ?_⟩
  · rw [← hdocid]
    refine malloc_returns.bind (malloc_returns.bind (Run.Returns.verify rfl
      (Run.Returns.verify rfl (hlookup.bind ?_))))
    exact hinsDocs.bind (Run.Returns.verify rfl (hinsIds.bind (Run.Returns.verify rfl rfl)))
  · rw [hdocid, List.length_append]
    rfl
  · rw [docEntries, hnext, List.map_append]
    refine hpermDocs.trans ((h.toName.cons _).trans ?_)
    rw [hdocid]
    exact (List.perm_append_singleton _ _).symm
  · rw [nameEntries, hnext, List.map_append]
    refine hpermIds.trans ((h.toDocid.cons _).trans ?_)
    rw [hdocid]
    exact (List.perm_append_singleton _ _).symm

/-- A new document table. -/
theorem allocateDocTable_yields : ∃ dt, Yields allocateDocTable dt ∧ Registered dt [] := by
  have halloc {V : Type} : Yields (allocateHashTable 1024) (some (HashTable.fresh V 1024)) :=
    allocateHashTable_yields (by decide)
  refine ⟨⟨HashTable.fresh CString 1024, HashTable.fresh UInt64 1024, 0⟩, ?_, ?_⟩
  · exact malloc_returns.bind (Run.Returns.verify rfl (halloc.bind (halloc.bind rfl)))
  · refine ⟨HashTable.wf_fresh (by decide) (by decide), HashTable.wf_fresh (by decide) (by decide),
      rfl, ?_, ?_⟩
    · rw [HashTable.fresh_entries]
      exact .nil
    · rw [HashTable.fresh_entries]
      exact .nil

end Registered

end MultithreadedWebServer
