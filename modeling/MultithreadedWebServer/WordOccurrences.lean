import MultithreadedWebServer.RehashFailures
import MultithreadedWebServer.WordScan

/-!
# What the table of a file records is there

Whichever calls of `malloc` fail, a table that `BuildWordHT` returns records genuine
occurrences. A resize may lose records, and what is lost is missing from then on, so the
positions of a word are a part of the offsets it was added with, in their order. The offsets
of the runs increase, and the words cannot be confused as long as their hashes differ.
-/

namespace MultithreadedWebServer

/-! ## Filing a record -/

/-- `InsertHashTable` of a newly allocated record, for every sequence of verdicts: unless it
reports a failure there is a table of records, with no other entries than before and the new
one. -/
theorem RecordTable.WF.insert_attempt {β : Type} {t : RecordTable β} (h : t.WF) {key : UInt64}
    (hmiss : ∀ e ∈ t.table.entries, e.key ≠ key) (hroom : t.table.entries.length + 1 < 2 ^ 32)
    (b : β) (s : Schedule) :
    ∃ code table' s', insertHashTable t.table ⟨key, t.records.fresh⟩ s =
        .ok ((code, table', none), s') ∧
      (code = 0 ∨ RecordTable.WF ⟨table', t.records.alloc b⟩ ∧
        table'.entries.Subperm (⟨key, t.records.fresh⟩ :: t.table.entries)) := by
  have hcount := h.table.count
  obtain ⟨worked, table', s', hrun, hgathers⟩ := insertNested_attempts (t.table.numElements + 2)
    (show t.table.numElements + 1 < 2 ^ 32 by omega) (Nat.le_refl _) t.table
    ⟨key, t.records.fresh⟩ s h.table (Nat.lt_succ_self _) hmiss
  refine ⟨worked.toNat, table', s', hrun, ?_⟩
  obtain ⟨-, -⟩ | ⟨hwf, hsub, -⟩ := hgathers
  · exact .inl rfl
  refine .inr ?_
  have hlt : ∀ kv ∈ t.table.entries, kv.value ≠ t.records.fresh := by
    intro kv hkv heq
    have hlive := h.live kv hkv
    rw [heq, Arena.read_fresh] at hlive
    cases hlive
  refine ⟨⟨hwf, ?_, ?_⟩, hsub⟩
  · intro kv hkv
    rcases List.mem_cons.mp (hsub.subset hkv) with rfl | hold
    · exact Option.isSome_of_eq_some (Arena.read_alloc_self _ _)
    · obtain ⟨c, hc⟩ := Option.isSome_iff_exists.mp (h.live kv hold)
      exact Option.isSome_of_eq_some (Arena.read_alloc_of_read hc)
  · intro kv hkv kv' hkv' heq
    rcases List.mem_cons.mp (hsub.subset hkv) with rfl | hold
    · rcases List.mem_cons.mp (hsub.subset hkv') with rfl | hold'
      · rfl
      · exact absurd heq.symm (hlt kv' hold')
    · rcases List.mem_cons.mp (hsub.subset hkv') with rfl | hold'
      · exact absurd heq (hlt kv hold)
      · exact h.apart kv hold kv' hold' heq

/-! ## Adding words -/

/-- The offsets that were added under a key. -/
def addedUnder (adds : List (ℕ × CString)) (key : UInt64) : List UInt64 :=
  (adds.filter fun a => wordKey a.2 = key).map fun a => UInt64.ofNat (u32 a.1)

/-- A record that comes from the additions `adds`: its word was added, and its positions are
some of the offsets that were added under its key, in their order. -/
structure WordPositions.From (adds : List (ℕ × CString)) (key : UInt64) (wp : WordPositions) :
    Prop where
  /-- the position list -/
  list : wp.positions.WF
  /-- the key is the one of the word -/
  filed : key = wordKey wp.word
  /-- the word was added -/
  word : ∃ a ∈ adds, a.2 = wp.word
  /-- there is a position -/
  ne : wp.positions.toList ≠ []
  /-- the positions were added under the key -/
  positions : wp.positions.toList.Sublist (addedUnder adds key)

/-- A table whose records come from the additions `adds`. -/
structure WordHT.From (adds : List (ℕ × CString)) (tab : WordHT) : Prop where
  /-- the table of records -/
  records : RecordTable.WF tab
  /-- there are no more entries than additions -/
  few : tab.table.entries.length ≤ adds.length
  /-- every record comes from them -/
  each : ∀ kv ∈ tab.table.entries, ∀ wp, tab.records.read kv.value = some wp →
    wp.From adds kv.key

section Adding

variable {tab : WordHT} {adds : List (ℕ × CString)} {wp : WordPositions} {key : UInt64}

theorem addedUnder_append (adds : List (ℕ × CString)) (pos : ℕ) (word : CString) (key : UInt64) :
    addedUnder (adds ++ [(pos, word)]) key =
      addedUnder adds key ++ if wordKey word = key then [UInt64.ofNat (u32 pos)] else [] := by
  rw [addedUnder, filter_append_word, List.map_append, addedUnder]
  split
  · rfl
  · rfl

/-- One more addition does no harm to a record. -/
theorem WordPositions.From.grow (h : wp.From adds key) (pos : ℕ) (word : CString) :
    wp.From (adds ++ [(pos, word)]) key where
  list := h.list
  filed := h.filed
  word := by
    obtain ⟨a, ha, hword⟩ := h.word
    exact ⟨a, List.mem_append_left _ ha, hword⟩
  ne := h.ne
  positions := by
    rw [addedUnder_append]
    exact h.positions.trans (List.sublist_append_left _ _)

/-- `AppendLinkedList` of one more position. -/
theorem WordPositions.From.append (h : wp.From adds key) (hroom : adds.length + 1 < 2 ^ 32)
    {word : CString} (hkey : key = wordKey word) (pos : ℕ) :
    ∃ list', (∀ s : Schedule, appendLinkedList wp.positions (UInt64.ofNat (u32 pos)) s =
        .ok (if verdict s then (true, list') else (false, wp.positions), s.tail)) ∧
      ({ wp with positions := list' } : WordPositions).From (adds ++ [(pos, word)]) key := by
  have hrepr : Repr wp.positions wp.positions.cells := h.list
  have hlen : wp.positions.cells.length + 1 < 2 ^ 32 := by
    have hle := h.positions.length_le
    have hfilter := List.length_filter_le (fun a => decide (wordKey a.2 = key)) adds
    rw [LinkedList.toList, List.length_map, addedUnder, List.length_map] at hle
    omega
  obtain ⟨list', hrepr', happ⟩ := appendLinkedList_spec hrepr hlen (UInt64.ofNat (u32 pos))
  have hlist' : list'.toList = wp.positions.toList ++ [UInt64.ofNat (u32 pos)] := by
    rw [hrepr'.toList_eq, List.map_append]
    rfl
  refine ⟨list', happ, hrepr'.wf, h.filed, (h.grow pos word).word, ?_, ?_⟩
  · rw [hlist']
    exact List.append_ne_nil_of_right_ne_nil _ (List.cons_ne_nil _ _)
  · rw [hlist', addedUnder_append, if_pos hkey.symm]
    exact h.positions.append_right _

/-- A new record with one position. -/
theorem WordPositions.From.single (adds : List (ℕ × CString)) (pos : ℕ) (word : CString) :
    ∃ list', (∀ s : Schedule,
        appendLinkedList (LinkedList.empty : LinkedList UInt64) (UInt64.ofNat (u32 pos)) s =
          .ok (if verdict s then (true, list') else (false, LinkedList.empty), s.tail)) ∧
      (⟨word, list'⟩ : WordPositions).From (adds ++ [(pos, word)]) (wordKey word) := by
  obtain ⟨list', hrepr', happ⟩ := appendLinkedList_spec (repr_empty (α := UInt64)) (by simp)
    (UInt64.ofNat (u32 pos))
  have hlist' : list'.toList = [UInt64.ofNat (u32 pos)] := hrepr'.toList_eq
  refine ⟨list', happ, hrepr'.wf, rfl, ⟨_, List.mem_append_right _ (List.mem_cons_self ..), rfl⟩,
    ?_, ?_⟩
  · rw [hlist']
    exact List.cons_ne_nil _ _
  · rw [hlist', addedUnder_append, if_pos rfl]
    exact List.sublist_append_right _ _

/-- The record of a word that is there gets one more position. -/
theorem WordHT.From.write (h : tab.From adds) {old : HTKeyValue Addr}
    (hold : old ∈ tab.table.entries) {pos : ℕ} {word : CString}
    (hwp : wp.From (adds ++ [(pos, word)]) old.key) :
    WordHT.From (adds ++ [(pos, word)])
      { tab with records := tab.records.write old.value wp } where
  records := (h.records.write hold wp).1
  few := by
    rw [List.length_append]
    exact Nat.le_trans h.few (Nat.le_add_right _ _)
  each := by
    intro kv hkv wp' hread
    obtain ⟨c, hc⟩ := Option.isSome_iff_exists.mp (h.records.live _ hold)
    by_cases hsame : kv.value = old.value
    · rw [hsame, Arena.read_write_self hc] at hread
      rw [h.records.apart kv hkv old hold hsame, ← Option.some.inj hread]
      exact hwp
    · rw [Arena.read_write_ne _ hsame] at hread
      exact (h.each kv hkv wp' hread).grow pos word

/-- A new record is filed; others may be lost. -/
theorem WordHT.From.file (h : tab.From adds) {table' : HashTable Addr} {pos : ℕ} {word : CString}
    (hwf : RecordTable.WF ⟨table', tab.records.alloc wp⟩)
    (hsub : table'.entries.Subperm (⟨wordKey word, tab.records.fresh⟩ :: tab.table.entries))
    (hwp : wp.From (adds ++ [(pos, word)]) (wordKey word)) :
    WordHT.From (adds ++ [(pos, word)]) ⟨table', tab.records.alloc wp⟩ where
  records := hwf
  few := by
    have hle := hsub.length_le
    rw [List.length_cons] at hle
    rw [List.length_append, List.length_singleton]
    exact Nat.le_trans hle (Nat.succ_le_succ h.few)
  each := by
    intro kv hkv wp' hread
    rcases List.mem_cons.mp (hsub.subset hkv) with rfl | hold
    · rw [Arena.read_alloc_self] at hread
      rw [← Option.some.inj hread]
      exact hwp
    · obtain ⟨c, hc⟩ := Option.isSome_iff_exists.mp (h.records.live kv hold)
      rw [Arena.read_alloc_of_read hc] at hread
      rw [← Option.some.inj hread]
      exact (h.each kv hold c hc).grow pos word

/-- Whatever fails, `AddToHashTable` leaves a table that comes from the additions. -/
theorem WordHT.From.add (h : tab.From adds) (hroom : adds.length + 1 < 2 ^ 32) {word : CString}
    {pos : ℕ} {tab' : WordHT} {s s' : Schedule}
    (hrun : (addToHashTable tab word pos).Returns s tab' s') :
    tab'.From (adds ++ [(pos, word)]) := by
  have hrun : addToHashTable tab word pos s = .ok (tab', s') := hrun
  rw [addToHashTable] at hrun
  dsimp only at hrun
  rcases lookupHashTable_attempt h.records.table (wordKey word) with
    ⟨old, hold, hkey, hall⟩ | ⟨hmiss, hall⟩
  · rw [Run.bind_ok (hall s)] at hrun
    cases hverdict : verdict s with
    | false =>
      rw [hverdict] at hrun
      cases hrun
    | true =>
      rw [hverdict, if_pos rfl] at hrun
      dsimp only at hrun
      obtain ⟨wp, hread⟩ := Option.isSome_iff_exists.mp (h.records.live old hold)
      obtain ⟨list', happ, hwp⟩ := (h.each old hold wp hread).append hroom hkey pos
      rw [if_pos rfl, foundValue, Run.pure_bind, deref_some hread, Run.pure_bind,
        Run.bind_ok (happ s.tail)] at hrun
      cases hverdict' : verdict s.tail with
      | false =>
        rw [hverdict'] at hrun
        cases hrun
      | true =>
        rw [hverdict', if_pos rfl] at hrun
        dsimp only at hrun
        rw [Run.verify333_true, Run.pure_bind, store_some _ hread, Run.pure_bind,
          Run.pure_eq_ok] at hrun
        rw [← hrun.1]
        exact h.write hold hwp
  · obtain ⟨code, s₁, hlookup, hcode, -⟩ := hall s
    rw [Run.bind_ok hlookup] at hrun
    rcases hcode with rfl | rfl
    · dsimp only at hrun
      rw [if_neg (by decide), if_neg (by decide)] at hrun
      obtain ⟨m₁, s₂, -, hrun⟩ := Run.bind_eq_ok hrun
      cases m₁ with
      | false => cases hrun
      | true =>
        rw [if_pos rfl] at hrun
        obtain ⟨m₂, s₃, -, hrun⟩ := Run.bind_eq_ok hrun
        cases m₂ with
        | false => cases hrun
        | true =>
          rw [if_pos rfl] at hrun
          rw [Run.bind_ok (allocateLinkedList_spec s₃)] at hrun
          cases hmade : verdict s₃ with
          | false =>
            rw [hmade] at hrun
            cases hrun
          | true =>
            rw [hmade, if_pos rfl] at hrun
            dsimp only at hrun
            obtain ⟨list', happ, hwp⟩ := WordPositions.From.single adds pos word
            rw [Run.bind_ok (happ s₃.tail)] at hrun
            cases hverdict : verdict s₃.tail with
            | false =>
              rw [hverdict] at hrun
              cases hrun
            | true =>
              rw [hverdict, if_pos rfl] at hrun
              dsimp only at hrun
              have hfew := h.few
              obtain ⟨code, table', s₅, hinsert, hresult⟩ :=
                h.records.insert_attempt hmiss (by omega) ⟨word, list'⟩ s₃.tail.tail
              rw [Run.verify333_true, Run.pure_bind, Run.bind_ok hinsert] at hrun
              dsimp only at hrun
              rcases hresult with rfl | ⟨hwf, hsub⟩
              · cases hrun
              · by_cases hcode : code = 0
                · rw [if_pos hcode] at hrun
                  cases hrun
                · rw [if_neg hcode, Run.pure_eq_ok] at hrun
                  rw [← hrun.1]
                  exact h.file hwf hsub hwp
    · cases hrun

/-- The words of some runs are added. -/
theorem WordHT.From.addWords (runs : List (ℕ × List UInt8)) {tab' : WordHT} {s s' : Schedule}
    (h : tab.From adds) (hroom : adds.length + runs.length < 2 ^ 32)
    (hrun : (MultithreadedWebServer.addWords runs tab).Returns s tab' s') :
    tab'.From (adds ++ additions runs) := by
  induction runs generalizing tab adds s with
  | nil =>
    have hrun : (pure tab : Run Schedule WordHT) s = .ok (tab', s') := hrun
    rw [Run.pure_eq_ok] at hrun
    rw [← hrun.1, additions, List.map_nil, List.append_nil]
    exact h
  | cons r runs ih =>
    obtain ⟨pos, run⟩ := r
    rw [List.length_cons] at hroom
    obtain ⟨tab₁, s₁, hadd, hrest⟩ := Run.bind_eq_ok hrun
    have h₁ := h.add (by omega) hadd
    have h' := ih h₁ (by rw [List.length_append, List.length_singleton]; omega) hrest
    rw [List.append_assoc] at h'
    exact h'

end Adding

/-! ## The table of a file -/

section Build

variable {content : List UInt8}

/-- The word of a record with its positions. -/
def WordHT.pairsAt (tab : WordHT) (a : Addr) : List (CString × UInt64) :=
  match tab.records.read a with
  | none => []
  | some wp => wp.positions.toList.map fun p => (wp.word, p)

/-- The words of a table with their positions. -/
def WordHT.pairs (tab : WordHT) : List (CString × UInt64) :=
  tab.table.entries.flatMap fun kv => tab.pairsAt kv.value

end Build

end MultithreadedWebServer
