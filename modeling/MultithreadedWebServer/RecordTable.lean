import MultithreadedWebServer.Rehash

/-!
# Hash tables that point to records

The clients of `HashTable.c` file pointers to records of their own: a `WordDocSet`, a
`WordPositions`. `RecordTable` is such a table together with the arena the records live
in, and `RecordTable.get?` is what a client sees of it: from keys to records.

The three things a client does are specified here: look a key up, file a new record,
change a record through its pointer.
-/

namespace MultithreadedWebServer

/-- A hash table whose values are addresses of records. -/
structure RecordTable (β : Type) where
  /-- from keys to addresses -/
  table : HashTable Addr
  /-- the records -/
  records : Arena β
  deriving DecidableEq

section RecordTable

variable {β : Type} {t : RecordTable β}

/-- The record filed under a key. -/
def RecordTable.get? (t : RecordTable β) (key : UInt64) : Option β :=
  (t.table.toFinmap.lookup key).bind t.records.read

/-- The keys something is filed under. -/
def RecordTable.keys (t : RecordTable β) : Finset UInt64 := t.table.toFinmap.keys

/-- The invariant: every filed address is live, and no two keys share one. -/
structure RecordTable.WF (t : RecordTable β) : Prop where
  /-- the hash table -/
  table : t.table.WF
  /-- every filed address is live -/
  live : ∀ kv ∈ t.table.entries, (t.records.read kv.value).isSome = true
  /-- and filed once -/
  apart : ∀ kv ∈ t.table.entries, ∀ kv' ∈ t.table.entries, kv.value = kv'.value →
    kv.key = kv'.key

theorem RecordTable.get?_of_mem (t : RecordTable β) (h : t.table.WF) {kv : HTKeyValue Addr}
    (hkv : kv ∈ t.table.entries) : t.get? kv.key = t.records.read kv.value := by
  rw [get?, HashTable.toFinmap, lookup_asFinmap_of_mem h.distinct hkv, Option.bind_some]

theorem RecordTable.get?_of_absent {key : UInt64} (h : ∀ e ∈ t.table.entries, e.key ≠ key) :
    t.get? key = none := by
  rw [get?, HashTable.toFinmap, lookup_asFinmap_of_absent h, Option.bind_none]

/-- Looking a key up finds the address of its record, or nothing. -/
theorem RecordTable.WF.find (h : t.WF) (key : UInt64) :
    (∃ a b, Yields (lookupHashTable t.table key) (1, some ⟨key, a⟩) ∧
      ⟨key, a⟩ ∈ t.table.entries ∧ t.records.read a = some b ∧ t.get? key = some b) ∨
    (Yields (lookupHashTable t.table key) (0, none) ∧
      (∀ e ∈ t.table.entries, e.key ≠ key) ∧ t.get? key = none) := by
  rcases lookupHashTable_yields h.table key with ⟨⟨key, a⟩, hkv, rfl, hrun⟩ | ⟨hmiss, hrun⟩
  · obtain ⟨b, hb⟩ := Option.isSome_iff_exists.mp (h.live _ hkv)
    exact .inl ⟨a, b, hrun, hkv, hb, (t.get?_of_mem h.table hkv).trans hb⟩
  · exact .inr ⟨hrun, hmiss, RecordTable.get?_of_absent hmiss⟩

theorem RecordTable.WF.mem_keys (h : t.WF) {key : UInt64} :
    key ∈ t.keys ↔ (t.get? key).isSome = true := by
  rw [keys, Finmap.mem_keys, ← Finmap.lookup_isSome]
  rcases hl : t.table.toFinmap.lookup key with _ | a
  · rw [get?, hl, Option.bind_none]
    exact Iff.rfl
  · rw [get?, hl, Option.bind_some]
    have hmem := (lookup_asFinmap_iff h.table.distinct).mp hl
    exact iff_of_true rfl (h.live _ hmem)

theorem RecordTable.WF.card_keys (h : t.WF) : t.keys.card = t.table.numElements := by
  rw [keys, HashTable.toFinmap, card_asFinmap h.table.distinct, h.table.count]

/-- A key and the record filed under it, as an entry of the table. -/
theorem RecordTable.WF.exists_entry (h : t.WF) {key : UInt64} {b : β} (hb : t.get? key = some b) :
    ∃ a, ⟨key, a⟩ ∈ t.table.entries ∧ t.records.read a = some b := by
  obtain ⟨a, ha, hread⟩ := Option.bind_eq_some_iff.mp hb
  exact ⟨a, (lookup_asFinmap_iff h.table.distinct).mp ha, hread⟩

/-! ## A new table -/

/-- A table nothing is filed in. -/
theorem RecordTable.wf_fresh {n : ℕ} (hn : 0 < n) (hs : n < 2 ^ 32) :
    RecordTable.WF ⟨HashTable.fresh Addr n, (Arena.empty : Arena β)⟩ where
  table := HashTable.wf_fresh hn hs
  live := fun kv hkv => by simp at hkv
  apart := fun kv hkv => by simp at hkv

theorem RecordTable.get?_fresh (n : ℕ) (key : UInt64) :
    RecordTable.get? ⟨HashTable.fresh Addr n, (Arena.empty : Arena β)⟩ key = none :=
  RecordTable.get?_of_absent fun e he => by simp at he

theorem RecordTable.keys_fresh (n : ℕ) :
    RecordTable.keys ⟨HashTable.fresh Addr n, (Arena.empty : Arena β)⟩ = ∅ := by
  rw [keys, HashTable.toFinmap, HashTable.fresh_entries]
  rfl

/-! ## Filing a new record -/

/-- `InsertHashTable` of a newly allocated record. -/
theorem RecordTable.WF.insert (h : t.WF) {key : UInt64} (hnone : t.get? key = none)
    (hroom : (Insert.insert key t.keys).card < 2 ^ 32) (b : β) :
    ∃ table', Yields (insertHashTable t.table ⟨key, t.records.fresh⟩) (1, table', none) ∧
      RecordTable.WF ⟨table', t.records.alloc b⟩ ∧
      ⟨key, t.records.fresh⟩ ∈ table'.entries ∧
      (∀ k, RecordTable.get? ⟨table', t.records.alloc b⟩ k =
        if k = key then some b else t.get? k) ∧
      RecordTable.keys ⟨table', t.records.alloc b⟩ = Insert.insert key t.keys := by
  have habsent : key ∉ t.keys := by
    rw [h.mem_keys, hnone]
    exact Bool.false_ne_true
  have hmiss : ∀ e ∈ t.table.entries, e.key ≠ key := by
    rintro e he rfl
    have hlive := h.live e he
    rw [← t.get?_of_mem h.table he, hnone] at hlive
    cases hlive
  rw [Finset.card_insert_of_notMem habsent, h.card_keys] at hroom
  obtain ⟨table', hrun, hwf, hperm⟩ := insertHashTable_fresh h.table hroom
    (show ∀ e ∈ t.table.entries,
      e.key ≠ (⟨key, t.records.fresh⟩ : HTKeyValue Addr).key from hmiss)
  have hnew : ⟨key, t.records.fresh⟩ ∈ table'.entries :=
    hperm.mem_iff.mpr List.mem_cons_self
  have hlt : ∀ kv ∈ t.table.entries, kv.value ≠ t.records.fresh := by
    intro kv hkv heq
    have hlive := h.live kv hkv
    rw [heq, Arena.read_fresh] at hlive
    cases hlive
  refine ⟨table', hrun, ⟨hwf, ?_, ?_⟩, hnew, fun k => ?_, ?_⟩
  · intro kv hkv
    rcases List.mem_cons.mp (hperm.mem_iff.mp hkv) with rfl | hold
    · exact Option.isSome_of_eq_some (Arena.read_alloc_self _ _)
    · obtain ⟨c, hc⟩ := Option.isSome_iff_exists.mp (h.live kv hold)
      exact Option.isSome_of_eq_some (Arena.read_alloc_of_read hc)
  · intro kv hkv kv' hkv' heq
    rcases List.mem_cons.mp (hperm.mem_iff.mp hkv) with rfl | hold <;>
      rcases List.mem_cons.mp (hperm.mem_iff.mp hkv') with rfl | hold'
    · rfl
    · exact absurd heq.symm (hlt kv' hold')
    · exact absurd heq (hlt kv hold)
    · exact h.apart kv hold kv' hold' heq
  · by_cases hk : k = key
    · rw [if_pos hk, hk]
      exact (RecordTable.get?_of_mem ⟨table', t.records.alloc b⟩ hwf hnew).trans
        (Arena.read_alloc_self _ _)
    · rw [if_neg hk]
      rcases hl : t.get? k with _ | c
      · refine RecordTable.get?_of_absent fun e he => ?_
        rcases List.mem_cons.mp (hperm.mem_iff.mp he) with rfl | hold
        · exact Ne.symm hk
        · rintro rfl
          have hlive := h.live e hold
          rw [← t.get?_of_mem h.table hold, hl] at hlive
          cases hlive
      · obtain ⟨a, hmem, hread⟩ := h.exists_entry hl
        have hmem' : ⟨k, a⟩ ∈ table'.entries := hperm.mem_iff.mpr (List.mem_cons_of_mem _ hmem)
        exact (RecordTable.get?_of_mem ⟨table', t.records.alloc b⟩ hwf hmem').trans
          (Arena.read_alloc_of_read hread)
  · ext k
    rw [keys, HashTable.toFinmap, asFinmap_perm hwf.distinct hperm, asFinmap_cons,
      Finmap.mem_keys, Finmap.mem_insert, Finset.mem_insert, keys, Finmap.mem_keys]
    rfl

/-! ## Changing a record -/

/-- A write through the address filed under a key changes that record only. -/
theorem RecordTable.WF.write (h : t.WF) {key : UInt64} {a : Addr}
    (hmem : ⟨key, a⟩ ∈ t.table.entries) (b : β) :
    RecordTable.WF { t with records := t.records.write a b } ∧
      (∀ k, RecordTable.get? { t with records := t.records.write a b } k =
        if k = key then some b else t.get? k) := by
  obtain ⟨c, hc⟩ := Option.isSome_iff_exists.mp (h.live _ hmem)
  have hself : (t.records.write a b).read a = some b := Arena.read_write_self hc
  have hother : ∀ kv ∈ t.table.entries, kv.key ≠ key →
      (t.records.write a b).read kv.value = t.records.read kv.value := by
    intro kv hkv hk
    refine Arena.read_write_ne _ fun heq => hk ?_
    exact h.apart kv hkv _ hmem heq
  refine ⟨⟨h.table, ?_, h.apart⟩, fun k => ?_⟩
  · intro kv hkv
    by_cases hk : kv.value = a
    · rw [hk]
      exact Option.isSome_of_eq_some hself
    · exact (congrArg Option.isSome (Arena.read_write_ne b hk)).trans (h.live kv hkv)
  · by_cases hk : k = key
    · rw [if_pos hk, hk]
      exact (RecordTable.get?_of_mem { t with records := t.records.write a b } h.table hmem).trans
        hself
    · rw [if_neg hk]
      rcases h.find k with ⟨a', c', -, hmem', hread, hget⟩ | ⟨-, hmiss, hget⟩
      · rw [hget, ← hread, ← hother _ hmem' hk]
        exact RecordTable.get?_of_mem { t with records := t.records.write a b } h.table hmem'
      · rw [hget]
        exact RecordTable.get?_of_absent hmiss

end RecordTable

end MultithreadedWebServer
