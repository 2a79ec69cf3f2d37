import Mathlib.Data.Set.Function
import MultithreadedWebServer.RankedSearch
import MultithreadedWebServer.Registration

/-!
# Registering names

Names are registered one after another in a new `DocTable`, some of them more than once. With
no collision of hashes the table numbers the distinct names in the order in which they first
came, and its two halves stay inverse to each other.
-/

namespace MultithreadedWebServer

/-- `DTRegisterDocumentName` for each of these names in turn. -/
def registerNames (table : DocTable) : List CString → Run Schedule (List UInt64 × DocTable)
  | [] => return ([], table)
  | name :: names => do
    let (docid, table) ← dtRegisterDocumentName table name
    let (docids, table) ← registerNames table names
    return (docid :: docids, table)

/-! ## First occurrences -/

section EraseDups

variable {α : Type} [BEq α] [LawfulBEq α]

/-- An element that was there adds nothing. -/
theorem eraseDups_concat_of_mem {xs : List α} {x : α} (h : x ∈ xs) :
    (xs ++ [x]).eraseDups = xs.eraseDups := by
  rw [List.eraseDups_append, List.removeAll, List.filter_cons_of_neg, List.filter_nil,
    List.eraseDups_nil, List.append_nil]
  simpa using h

/-- A new one comes last. -/
theorem eraseDups_concat_of_not_mem {xs : List α} {x : α} (h : x ∉ xs) :
    (xs ++ [x]).eraseDups = xs.eraseDups ++ [x] := by
  rw [List.eraseDups_append, List.removeAll, List.filter_cons_of_pos, List.filter_nil]
  · rfl
  · simpa using h

/-- The place of an element does not change when more come. -/
theorem idxOf_eraseDups_append {xs : List α} {x : α} (h : x ∈ xs) (ys : List α) :
    (xs ++ ys).eraseDups.idxOf x = xs.eraseDups.idxOf x := by
  rw [List.eraseDups_append]
  exact List.idxOf_append_of_mem (List.mem_eraseDups.mpr h)

end EraseDups

/-! ## Looking up -/

section Registered

variable {dt : DocTable} {names : List CString}

theorem mem_nameEntries {kv : HTKeyValue UInt64} :
    kv ∈ nameEntries names ↔
      ∃ i name, names[i]? = some name ∧ kv = ⟨wordKey name, docIdOf i⟩ := by
  rw [nameEntries, List.mem_map]
  constructor
  · rintro ⟨⟨name, i⟩, hmem, rfl⟩
    exact ⟨i, name, List.mk_mem_zipIdx_iff_getElem?.mp hmem, rfl⟩
  · rintro ⟨i, name, hname, rfl⟩
    exact ⟨(name, i), List.mk_mem_zipIdx_iff_getElem?.mpr hname, rfl⟩

/-- No name has two ids. -/
theorem Registered.nodup (h : Registered dt names) : names.Nodup := by
  have hkeys : ((nameEntries names).map HTKeyValue.key).Nodup := h.ids.distinct.perm h.toDocid
  have heq : (nameEntries names).map HTKeyValue.key = (names.zipIdx.map Prod.fst).map wordKey := by
    rw [nameEntries, List.map_map, List.map_map]
    rfl
  rw [heq, List.zipIdx_map_fst] at hkeys
  exact hkeys.of_map

/-- What the table from hashes to ids says about a name whose hash no other name has. -/
theorem Registered.find_name (h : Registered dt names) {docname : CString}
    (hinj : ∀ name ∈ names, wordKey name = wordKey docname → name = docname) :
    (docname ∈ names ∧ Yields (lookupHashTable dt.docnameToDocid (wordKey docname))
      (1, some ⟨wordKey docname, docIdOf (names.idxOf docname)⟩)) ∨
    (docname ∉ names ∧ Yields (lookupHashTable dt.docnameToDocid (wordKey docname)) (0, none)) := by
  rcases lookupHashTable_yields h.ids (wordKey docname) with ⟨kv, hkv, hkey, hrun⟩ | ⟨hmiss, hrun⟩
  · obtain ⟨i, name, hname, rfl⟩ := mem_nameEntries.mp (h.toDocid.mem_iff.mp hkv)
    obtain rfl : name = docname := hinj name (List.mem_of_getElem? hname) hkey
    obtain ⟨hi, hget⟩ := List.getElem?_eq_some_iff.mp hname
    have hidx : names.idxOf name = i := by
      rw [← hget]
      exact h.nodup.idxOf_getElem i hi
    rw [hidx]
    exact .inl ⟨List.mem_of_getElem? hname, hrun⟩
  · refine .inr ⟨fun hmem => ?_, hrun⟩
    obtain ⟨i, hi⟩ := List.getElem?_of_mem hmem
    exact hmiss _ (h.toDocid.mem_iff.mpr (mem_nameEntries.mpr ⟨i, docname, hi, rfl⟩)) rfl

/-- `DTRegisterDocumentName` gives a name that is known its id back. -/
theorem Registered.register_known (h : Registered dt names) {docname : CString}
    (hinj : ∀ name ∈ names, wordKey name = wordKey docname → name = docname)
    (hmem : docname ∈ names) :
    Yields (dtRegisterDocumentName dt docname) (docIdOf (names.idxOf docname), dt) := by
  rcases h.find_name hinj with ⟨-, hrun⟩ | ⟨hnot, -⟩
  · exact malloc_returns.bind (malloc_returns.bind (Run.Returns.verify rfl
      (Run.Returns.verify rfl (hrun.bind rfl))))
  · exact absurd hmem hnot

/-- `DTLookupDocumentName` gives the id of a name, and 0 when it has none. -/
theorem Registered.lookup_name (h : Registered dt names) {docname : CString}
    (hinj : ∀ name ∈ names, wordKey name = wordKey docname → name = docname) :
    Yields (dtLookupDocumentName dt docname)
      (if docname ∈ names then docIdOf (names.idxOf docname) else 0) := by
  rcases h.find_name hinj with ⟨hmem, hrun⟩ | ⟨hnot, hrun⟩
  · rw [if_pos hmem]
    exact hrun.bind rfl
  · rw [if_neg hnot]
    exact hrun.bind rfl

theorem toNat_docIdOf {i : ℕ} (hi : i + 1 < 2 ^ 32) : (docIdOf i).toNat = i + 1 := by
  rw [docIdOf, UInt64.toNat_ofNat']
  omega

/-- An id is not 0. -/
theorem docIdOf_ne_zero {i : ℕ} (hi : i + 1 < 2 ^ 32) : docIdOf i ≠ 0 := by
  intro hzero
  have hnat := toNat_docIdOf hi
  rw [hzero] at hnat
  cases hnat

/-- `DTLookupDocID` gives the name with this number. -/
theorem Registered.lookup_docid (h : Registered dt names) (hroom : names.length < 2 ^ 32)
    {docid : UInt64} (hne : docid ≠ 0) :
    Yields (dtLookupDocID dt docid) names[docid.toNat - 1]? := by
  refine Run.Returns.verify (decide_eq_true hne) ?_
  have hkey {i : ℕ} {name : CString} (hname : names[i]? = some name) :
      (docIdOf i).toNat = i + 1 := by
    obtain ⟨hi, -⟩ := List.getElem?_eq_some_iff.mp hname
    exact toNat_docIdOf (by omega)
  rcases lookupHashTable_yields h.docs docid with ⟨kv, hkv, rfl, hrun⟩ | ⟨hmiss, hrun⟩
  · obtain ⟨i, hname, hdocid⟩ := mem_docEntries.mp (h.toName.mem_iff.mp hkv)
    have hi : kv.key.toNat - 1 = i := by
      rw [hdocid, hkey hname, Nat.add_sub_cancel]
    rw [hi, hname]
    exact hrun.bind rfl
  · have hnone : names[docid.toNat - 1]? = none := by
      rcases hname : names[docid.toNat - 1]? with _ | name
      · rfl
      · have hpos : docid.toNat ≠ 0 := fun hzero => hne (UInt64.toNat_inj.mp hzero)
        have heq : docid = docIdOf (docid.toNat - 1) := by
          rw [← UInt64.toNat_inj, hkey hname]
          omega
        have hmem : (⟨docid, name⟩ : HTKeyValue CString) ∈ docEntries names :=
          mem_docEntries.mpr ⟨docid.toNat - 1, hname, heq⟩
        exact absurd rfl (hmiss _ (h.toName.mem_iff.mpr hmem))
    rw [hnone]
    exact hrun.bind rfl

end Registered

/-! ## Runs -/

section Run

variable {dt : DocTable} {used : Set CString}

/-- One more name, whether it is new or not. -/
theorem Registered.register_next {earlier : List CString} (h : Registered dt earlier.eraseDups)
    {docname : CString} (hinj : ∀ name ∈ earlier, wordKey name = wordKey docname → name = docname)
    (hroom : (earlier ++ [docname]).eraseDups.length < 2 ^ 32) :
    ∃ dt', Yields (dtRegisterDocumentName dt docname)
        (docIdOf ((earlier ++ [docname]).eraseDups.idxOf docname), dt') ∧
      Registered dt' (earlier ++ [docname]).eraseDups := by
  by_cases hmem : docname ∈ earlier
  · rw [eraseDups_concat_of_mem hmem]
    refine ⟨dt, h.register_known (fun name hname => ?_) (List.mem_eraseDups.mpr hmem), h⟩
    exact hinj name (List.mem_eraseDups.mp hname)
  · have hnot : docname ∉ earlier.eraseDups := fun hin => hmem (List.mem_eraseDups.mp hin)
    rw [eraseDups_concat_of_not_mem hmem] at hroom ⊢
    rw [List.length_append, List.length_singleton] at hroom
    have hnew : ∀ name ∈ earlier.eraseDups, wordKey name ≠ wordKey docname := by
      intro name hname hkey
      have hin := List.mem_eraseDups.mp hname
      exact hmem (hinj name hin hkey ▸ hin)
    rw [List.idxOf_append_of_notMem hnot, List.idxOf_cons_self, Nat.add_zero]
    exact h.register hroom hnew

/-- All of them: every call returns the number of the first occurrence of its name. -/
theorem Registered.register_all (hinj : Set.InjOn wordKey used) :
    ∀ (names : List CString) {earlier : List CString} {dt : DocTable},
      Registered dt earlier.eraseDups → (∀ name ∈ earlier ++ names, name ∈ used) →
      (earlier ++ names).eraseDups.length < 2 ^ 32 →
      ∃ dt', Yields (registerNames dt names)
          (names.map fun name => docIdOf ((earlier ++ names).eraseDups.idxOf name), dt') ∧
        Registered dt' (earlier ++ names).eraseDups
  | [], earlier, dt, h, _, _ => by
    rw [List.append_nil]
    exact ⟨dt, rfl, h⟩
  | docname :: names, earlier, dt, h, hused, hroom => by
    rw [List.append_cons] at hused hroom
    have hapart : ∀ name ∈ earlier, wordKey name = wordKey docname → name = docname := by
      intro name hname hkey
      refine hinj (hused name ?_) (hused docname ?_) hkey
      · simp [hname]
      · simp
    have hfirst : (earlier ++ [docname]).eraseDups.length ≤
        (earlier ++ [docname] ++ names).eraseDups.length := by
      rw [@List.eraseDups_append _ _ _ (earlier ++ [docname]), List.length_append]
      exact Nat.le_add_right _ _
    obtain ⟨dt₁, hregister, h₁⟩ := h.register_next hapart (Nat.lt_of_le_of_lt hfirst hroom)
    obtain ⟨dt₂, hrun, h₂⟩ := register_all hinj names h₁ hused hroom
    have hmem : docname ∈ earlier ++ [docname] := List.mem_append_right _ List.mem_cons_self
    rw [List.append_cons, List.map_cons, idxOf_eraseDups_append hmem]
    exact ⟨dt₂, hregister.bind (hrun.bind rfl), h₂⟩

end Run

/-! ## The table is a bijection -/

/-- `dt` numbers the names: these are the ids that `DTRegisterDocumentName` returned for them,
and no name in `used` shares its hash with another. -/
structure Numbers (dt : DocTable) (used : Set CString) (names : List CString)
    (docids : List UInt64) : Prop where
  /-- one id for each call -/
  answered : docids.length = names.length
  /-- a repeated name gets its first id -/
  repeated : ∀ i j : ℕ, names[i]? = names[j]? → docids[i]? = docids[j]?
  /-- distinct names are numbered in the order in which they first came -/
  inOrder : ∀ (k i : ℕ) name, names.eraseDups[k]? = some name → names[i]? = some name →
    docids[i]? = some (UInt64.ofNat (k + 1))
  /-- the largest id -/
  maxId : dt.maxId.toNat = names.eraseDups.length
  /-- and the number of documents -/
  numDocs : dtNumDocsInDocTable dt = names.eraseDups.length
  /-- from a name to its id and back -/
  nameOfId : ∀ (i : ℕ) name docid, names[i]? = some name → docids[i]? = some docid →
    Yields (dtLookupDocID dt docid) (some name)
  /-- from an id to its name and back -/
  idOfName : ∀ docid, 1 ≤ docid → docid ≤ dt.maxId →
    ∃ name, Yields (dtLookupDocID dt docid) (some name) ∧
      Yields (dtLookupDocumentName dt name) docid
  /-- a name without an id is not registered -/
  unregistered : ∀ name ∈ used,
    ∃ docid, Yields (dtLookupDocumentName dt name) docid ∧ (docid = 0 ↔ name ∉ names)
  /-- an id without a name is too large -/
  beyond : ∀ docid, docid ≠ 0 →
    ∃ name, Yields (dtLookupDocID dt docid) name ∧ (name = none ↔ dt.maxId < docid)

/-- What has been registered in order is numbered. -/
theorem Registered.numbers {dt : DocTable} {used : Set CString} {names : List CString}
    (h : Registered dt names.eraseDups) (hinj : Set.InjOn wordKey used)
    (hused : ∀ name ∈ names, name ∈ used) (hroom : names.eraseDups.length < 2 ^ 32) :
    Numbers dt used names (names.map fun name => docIdOf (names.eraseDups.idxOf name)) := by
  have hmaxId : dt.maxId.toNat = names.eraseDups.length := by
    rw [h.maxId, UInt64.toNat_ofNat']
    omega
  have hapart : ∀ docname ∈ used, ∀ name ∈ names.eraseDups,
      wordKey name = wordKey docname → name = docname := by
    intro docname hdocname name hname hkey
    exact hinj (hused name (List.mem_eraseDups.mp hname)) hdocname hkey
  have hplace {k : ℕ} {name : CString} (hk : names.eraseDups[k]? = some name) :
      k < names.eraseDups.length ∧ names.eraseDups.idxOf name = k := by
    obtain ⟨hlt, rfl⟩ := List.getElem?_eq_some_iff.mp hk
    exact ⟨hlt, h.nodup.idxOf_getElem k hlt⟩
  have hlast {k : ℕ} (hk : k < names.eraseDups.length) : k + 1 < 2 ^ 32 :=
    Nat.lt_of_le_of_lt hk hroom
  constructor
  case answered => exact List.length_map _
  case repeated =>
    intro i j heq
    rw [List.getElem?_map, List.getElem?_map, heq]
  case inOrder =>
    intro k i name hk hi
    rw [List.getElem?_map, hi, Option.map_some, (hplace hk).2]
    rfl
  case maxId => exact hmaxId
  case numDocs =>
    rw [dtNumDocsInDocTable, numElementsInHashTable, h.docs.count, h.toName.length_eq, docEntries,
      List.length_map, List.length_zipIdx]
  case nameOfId =>
    intro i name docid hi hdocid
    rw [List.getElem?_map, hi, Option.map_some] at hdocid
    obtain rfl := Option.some.inj hdocid
    have hmem := List.mem_eraseDups.mpr (List.mem_of_getElem? hi)
    have hlt := List.idxOf_lt_length_iff.mpr hmem
    have hrun := h.lookup_docid hroom (docIdOf_ne_zero (hlast hlt))
    rwa [toNat_docIdOf (hlast hlt), Nat.add_sub_cancel, List.getElem?_idxOf hmem] at hrun
  case idOfName =>
    intro docid hone hle
    have hpos : 1 ≤ docid.toNat := UInt64.le_iff_toNat_le.mp hone
    have hlt : docid.toNat - 1 < names.eraseDups.length := by
      rw [UInt64.le_iff_toNat_le, hmaxId] at hle
      omega
    have hget : names.eraseDups[docid.toNat - 1]? = some (names.eraseDups[docid.toNat - 1]) :=
      List.getElem?_eq_getElem hlt
    have hmem := List.mem_of_getElem? hget
    have hne : docid ≠ 0 := by
      intro hzero
      rw [hzero] at hpos
      cases hpos
    have hname := h.lookup_docid hroom hne
    have hdocid := h.lookup_name (hapart _ (hused _ (List.mem_eraseDups.mp hmem)))
    rw [hget] at hname
    rw [if_pos hmem, (hplace hget).2] at hdocid
    have hnat : docIdOf (docid.toNat - 1) = docid := by
      rw [docIdOf, Nat.sub_add_cancel hpos, UInt64.ofNat_toNat]
    rw [hnat] at hdocid
    exact ⟨_, hname, hdocid⟩
  case unregistered =>
    intro name hname
    refine ⟨_, h.lookup_name (hapart name hname), ?_⟩
    by_cases hmem : name ∈ names.eraseDups
    · have hlt := List.idxOf_lt_length_iff.mpr hmem
      rw [if_pos hmem, ← List.mem_eraseDups (l := names)]
      exact iff_of_false (docIdOf_ne_zero (hlast hlt)) (not_not_intro hmem)
    · rw [if_neg hmem, ← List.mem_eraseDups (l := names)]
      exact iff_of_true rfl hmem
  case beyond =>
    intro docid hne
    refine ⟨_, h.lookup_docid hroom hne, ?_⟩
    have hpos : docid.toNat ≠ 0 := fun hzero => hne (UInt64.toNat_inj.mp hzero)
    rw [List.getElem?_eq_none_iff, UInt64.lt_iff_toNat_lt, hmaxId]
    omega

/-- A new `DocTable` numbers the names registered in it, whatever they are and however often
each of them comes: the two tables and the counter make up a bijection between the distinct
names and the ids from 1 on. -/
theorem docTable_bijection {used : Set CString} (hinj : Set.InjOn wordKey used)
    {names : List CString} (hused : ∀ name ∈ names, name ∈ used)
    (hroom : names.eraseDups.length < 2 ^ 32) :
    ∃ fresh docids dt, Yields allocateDocTable fresh ∧
      Yields (registerNames fresh names) (docids, dt) ∧ Numbers dt used names docids := by
  obtain ⟨fresh, halloc, hfresh⟩ := allocateDocTable_yields
  have hstart : Registered fresh ([] : List CString).eraseDups := hfresh
  obtain ⟨dt, hrun, hdt⟩ := hstart.register_all hinj names hused hroom
  exact ⟨fresh, _, dt, halloc, hrun, hdt.numbers hinj hused hroom⟩

/-- Three calls for two names. -/
theorem docTable_bijection_repeated :
    ∃ fresh docids dt, Yields allocateDocTable fresh ∧
      Yields (registerNames fresh [wordB, wordA, wordB]) (docids, dt) ∧
      Numbers dt {name | name ∈ [wordA, wordB]} [wordB, wordA, wordB] docids := by
  have happart : HashesApart [wordA, wordB] := by
    unfold HashesApart
    decide
  have hused : ∀ name ∈ [wordB, wordA, wordB], name ∈ [wordA, wordB] := by
    simp
  refine docTable_bijection (fun name hname name' hname' => happart name hname name' hname') ?_ ?_
  · exact hused
  · decide

end MultithreadedWebServer
