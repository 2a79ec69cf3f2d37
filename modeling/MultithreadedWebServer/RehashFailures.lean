import MultithreadedWebServer.TableRuns

/-!
# Growing when memory runs out

What `ResizeHashtable` does under any sequence of `malloc` verdicts. An insertion that
fails is noticed, and the old table stays. `HTIteratorNext` also needs memory, for the
iterator over the next chain, and without it the table iterator looks as if it had passed
the end: the loop stops and the new table, with what has been copied so far, takes over.

Which calls of `malloc` come after which depends on the keys in the buckets, and on nothing
else. `resizeCalls` lists them as a tree, with two ways to go on after each call, and marks
the ends of the tree where a pair has been lost. The invariant of the copy loop is that what
has been copied and what is still to come are the old pairs, up to those that are lost on
the branch that the verdicts have taken.
-/

namespace MultithreadedWebServer

/-! ## Trees of calls -/

/-- The calls of `malloc` that a procedure may make, with two ways to go on after each. It ends
with a pair lost, or without. -/
inductive CallTree : Type where
  /-- no further call -/
  | ends (lost : Bool)
  /-- a call, what follows if there is memory, and what follows if not -/
  | malloc (granted refused : CallTree)
  deriving DecidableEq

namespace CallTree

/-- Whether a pair is lost when the calls get these verdicts. -/
def follow : CallTree → Schedule → Bool
  | ends lost, _ => lost
  | malloc granted refused, s =>
    if verdict s then granted.follow s.tail else refused.follow s.tail

/-- So many calls in a row, and what follows if all of them are granted, or one is not. -/
def calls : ℕ → CallTree → CallTree → CallTree
  | 0, granted, _ => granted
  | k + 1, granted, refused => malloc (calls k granted refused) refused

@[simp] theorem follow_ends (lost : Bool) (s : Schedule) : (ends lost).follow s = lost := rfl

@[simp] theorem follow_malloc (granted refused : CallTree) (s : Schedule) :
    (malloc granted refused).follow s =
      if verdict s then granted.follow s.tail else refused.follow s.tail := rfl

@[simp] theorem follow_calls (k : ℕ) (granted refused : CallTree) (s : Schedule) :
    (calls k granted refused).follow s =
      if served k s then granted.follow (s.drop k) else refused.follow (pastRefused k s) := by
  induction k generalizing s with
  | zero => rfl
  | succ k ih =>
    rw [calls, follow_malloc, ih, served, pastRefused, List.drop_tail]
    cases verdict s <;> rfl

end CallTree

section Failures

variable {V : Type} {t : HashTable V}

/-! ## The calls of a resize -/

/-- What the tree of a procedure goes on with: where it has failed, and where it leaves a table
with so many buckets and these pairs, bucket by bucket, after a loss or without one. -/
abbrev Continued (V : Type) : Type :=
  CallTree → (ℕ → List (HTKeyValue V) → Bool → CallTree) → CallTree

/-- The calls of inserting a pair with a fresh key, from the buckets and pairs of the table. -/
abbrev InsertCalls (V : Type) : Type := ℕ → List (HTKeyValue V) → HTKeyValue V → Continued V

/-- The calls of the copy loop. The pairs `copied` are in the new table, up to those that were
lost on the way, and the others are still to come from a table of `numBuckets` buckets. The last
pair of a chain is followed by the call for an iterator over the next chain, and refusing it
loses what is still to come. An insertion that fails gives up the copy, with its losses. -/
def copyCalls (insert : InsertCalls V) (numBuckets : ℕ) :
    ℕ → List (HTKeyValue V) → Bool → List (HTKeyValue V) → Continued V
  | newBuckets, copied, lost, [], _, installed => installed newBuckets copied lost
  | newBuckets, copied, lost, kv :: rest, givenUp, installed =>
    insert newBuckets copied kv givenUp fun newBuckets copied lossy =>
      if crosses numBuckets kv rest then
        .malloc
          (copyCalls insert numBuckets newBuckets copied (lost || lossy) rest givenUp installed)
          (installed newBuckets copied true)
      else copyCalls insert numBuckets newBuckets copied (lost || lossy) rest givenUp installed

/-- The calls of a resize: below the threshold none, else those for the record of the new
table, its array, its chains and the iterator, and those of the copy loop. If it is given up,
the table is as it was. -/
def resizeCalls (insert : InsertCalls V) (numBuckets : ℕ) (pairs : List (HTKeyValue V))
    (done : ℕ → List (HTKeyValue V) → Bool → CallTree) : CallTree :=
  if pairs.length < u32 (3 * numBuckets) then done numBuckets pairs false
  else
    .calls (u32 (numBuckets * 9) + 2 + 2)
      (copyCalls insert numBuckets (u32 (numBuckets * 9)) [] false pairs
        (done numBuckets pairs false) done)
      (done numBuckets pairs false)

/-- The calls of an insertion: those of its resize, and those for the pair, the iterator over
its chain, if that is not empty, and the node. -/
def insertCalls : ℕ → InsertCalls V
  | 0, _, _, _, givenUp, _ => givenUp
  | depth + 1, numBuckets, pairs, kv, givenUp, done =>
    resizeCalls (insertCalls depth) numBuckets pairs fun numBuckets pairs lossy =>
      .calls (insertMallocs numBuckets pairs kv)
        (done numBuckets (placed numBuckets kv pairs) lossy) givenUp

/-! ## Allocation -/

theorem served_add (m n : ℕ) (s : Schedule) :
    served (m + n) s = (served m s && served n (s.drop m)) := by
  induction m generalizing s with
  | zero => simp [served]
  | succ m ih =>
    rw [Nat.succ_add, served, served, ih, Bool.and_assoc, List.drop_tail]

theorem pastRefused_add (m n : ℕ) (s : Schedule) :
    pastRefused (m + n) s =
      if served m s then pastRefused n (s.drop m) else pastRefused m s := by
  induction m generalizing s with
  | zero => simp [served]
  | succ m ih =>
    rw [Nat.succ_add, pastRefused, ih, served, pastRefused, List.drop_tail]
    cases verdict s <;> rfl

theorem allocateChains_attempt (n : ℕ) (s : Schedule) :
    ∃ made s', (allocateChains n : Run Schedule (Option (List (LinkedList (HTKeyValue V))))) s =
        .ok (made, s') ∧
      (served n s = true ∧ made = some (List.replicate n LinkedList.empty) ∧ s' = s.drop n ∨
        served n s = false ∧ made = none ∧ s' = pastRefused n s) := by
  induction n generalizing s with
  | zero => exact ⟨_, s, rfl, .inl ⟨rfl, rfl, rfl⟩⟩
  | succ n ih =>
    have hone := allocateLinkedList_spec (α := HTKeyValue V) s
    obtain ⟨made, s', hrun, hmade⟩ := ih s.tail
    cases hs : verdict s
    · refine ⟨none, s.tail, ?_, .inr ⟨by simp [served, hs], rfl, by simp [pastRefused, hs]⟩⟩
      simp [allocateChains, Run.bind_apply, hone, hs]
    · rcases hmade with ⟨hserved, rfl, rfl⟩ | ⟨hserved, rfl, rfl⟩
      · refine ⟨_, s.tail.drop n, ?_, .inl ⟨by simp [served, hs, hserved], rfl, List.drop_tail⟩⟩
        simp [allocateChains, Run.bind_apply, hone, hs, hrun, List.replicate_succ]
      · refine ⟨none, pastRefused n s.tail, ?_, .inr ⟨by simp [served, hs, hserved], rfl,
          by simp [pastRefused, hs]⟩⟩
        simp [allocateChains, Run.bind_apply, hone, hs, hrun]

/-- `AllocateHashTable` makes an empty table, or nothing. -/
theorem allocateHashTable_attempt {n : ℕ} (hn : 0 < n) (s : Schedule) :
    ∃ made s', (allocateHashTable n : Run Schedule (Option (HashTable V))) s = .ok (made, s') ∧
      (served (n + 2) s = true ∧ made = some (HashTable.fresh V n) ∧ s' = s.drop (n + 2) ∨
        served (n + 2) s = false ∧ made = none ∧ s' = pastRefused (n + 2) s) := by
  have hz : n ≠ 0 := Nat.pos_iff_ne_zero.mp hn
  cases hs : verdict s
  · refine ⟨none, s.tail, ?_, .inr ⟨by simp [served, hs], rfl, by simp [pastRefused, hs]⟩⟩
    simp [allocateHashTable, hz, Run.bind_apply, malloc_apply, hs]
  · cases hs' : verdict s.tail
    · refine ⟨none, s.tail.tail, ?_, .inr ⟨by simp [served, hs, hs'], rfl,
        by simp [pastRefused, hs, hs']⟩⟩
      simp [allocateHashTable, hz, Run.bind_apply, malloc_apply, hs, hs']
    · obtain ⟨made, s', hrun, hmade⟩ := allocateChains_attempt (V := V) n s.tail.tail
      rcases hmade with ⟨hserved, rfl, rfl⟩ | ⟨hserved, rfl, rfl⟩
      · refine ⟨_, s.tail.tail.drop n, ?_, .inl ⟨by simp [served, hs, hs', hserved], rfl, ?_⟩⟩
        · simp [allocateHashTable, hz, Run.bind_apply, malloc_apply, hs, hs', hrun, HashTable.fresh]
        · rw [List.drop_tail, List.drop_tail]
      · refine ⟨none, pastRefused n s.tail.tail, ?_, .inr ⟨by simp [served, hs, hs', hserved], rfl,
          by simp [pastRefused, hs, hs']⟩⟩
        simp [allocateHashTable, hz, Run.bind_apply, malloc_apply, hs, hs', hrun]

/-! ## The copy loop -/

theorem DistinctKeys.subperm {l l' : List (HTKeyValue V)} (h : DistinctKeys l)
    (hs : l'.Subperm l) : DistinctKeys l' := by
  obtain ⟨l'', hperm, hsub⟩ := hs
  exact DistinctKeys.perm (h.sublist (hsub.map _)) hperm

/-- A procedure that takes the pairs `coming` together ends, from the verdicts `s` with `s'`. It
has failed, or has left a well-formed table of such pairs, and its tree goes on accordingly: in
a table a pair is lost if one was before, or if one is missing. -/
inductive Gathers (coming : List (HTKeyValue V)) (lost : Bool) (calls : Continued V)
    (s s' : Schedule) : Bool → HashTable V → Prop
  /-- it has failed -/
  | failed {t' : HashTable V} (hwf : t'.WF)
      (hcalls : ∀ givenUp done, (calls givenUp done).follow s = givenUp.follow s') :
      Gathers coming lost calls s s' false t'
  /-- there is a table -/
  | made {t' : HashTable V} (hwf : t'.WF) (hsub : t'.entries.Subperm coming)
      (hcalls : ∀ givenUp done, (calls givenUp done).follow s =
        (done t'.numBuckets t'.entries
          (lost || decide (t'.entries.length < coming.length))).follow s') :
      Gathers coming lost calls s s' true t'

/-- What an insertion of a fresh key does, for tables with fewer than `n` elements: it fails,
or the table has the pair and no new ones, with the calls of the tree. -/
def Attempts (insert : Insertion V) (calls : InsertCalls V) (n : ℕ) : Prop :=
  ∀ (newht : HashTable V) (kv : HTKeyValue V) (s : Schedule), newht.WF →
    newht.numElements < n → (∀ e ∈ newht.entries, e.key ≠ kv.key) →
    ∃ worked newht' s', insert newht kv s = .ok ((worked.toNat, newht', none), s') ∧
      Gathers (kv :: newht.entries) false (calls newht.numBuckets newht.entries kv) s s' worked
        newht'

section Gathers

variable {kv : HTKeyValue V} {rest new : List (HTKeyValue V)} {newht₁ newht' : HashTable V}
  {lost worked : Bool} {calls calls' : Continued V} {s s₁ s' : Schedule}

/-- What the new table has and what is to come are pairs that were to come. -/
theorem subperm_move (rest : List (HTKeyValue V)) (hsub : newht₁.entries.Subperm (kv :: new)) :
    (rest ++ newht₁.entries).Subperm (kv :: rest ++ new) :=
  ((List.subperm_append_left rest).mpr hsub).trans List.perm_middle.subperm

/-- A pair more is to come, and it is copied with whatever loss. -/
theorem Gathers.cons (hsub : newht₁.entries.Subperm (kv :: new))
    (h : Gathers (rest ++ newht₁.entries)
      (lost || decide (newht₁.entries.length < (kv :: new).length)) calls' s₁ s' worked newht')
    (hcalls : ∀ givenUp done, (calls givenUp done).follow s = (calls' givenUp done).follow s₁) :
    Gathers (kv :: rest ++ new) lost calls s s' worked newht' := by
  cases h with
  | failed hwf hgo => exact .failed hwf fun givenUp done => (hcalls givenUp done).trans (hgo _ _)
  | made hwf hsub' hgo =>
    refine .made hwf (hsub'.trans (subperm_move rest hsub)) fun givenUp done => ?_
    rw [hcalls, hgo, Bool.or_assoc, ← Bool.decide_or]
    have hle := hsub.length_le
    have hle' := hsub'.length_le
    have hmissing : (newht₁.entries.length < (kv :: new).length ∨
        newht'.entries.length < (rest ++ newht₁.entries).length) ↔
          newht'.entries.length < (kv :: rest ++ new).length := by
      simp only [List.cons_append, List.length_cons, List.length_append] at hle hle' ⊢
      omega
    rw [decide_eq_decide.mpr hmissing]

/-- The loop ends early: what was still to come is lost. -/
theorem Gathers.cut (hwf : newht₁.WF) (hrest : 0 < rest.length)
    (hsub : newht₁.entries.Subperm (kv :: new))
    (hcalls : ∀ givenUp done, (calls givenUp done).follow s =
      (done newht₁.numBuckets newht₁.entries true).follow s') :
    Gathers (kv :: rest ++ new) lost calls s s' true newht₁ := by
  have hmove := subperm_move rest hsub
  refine .made hwf ((List.sublist_append_right rest _).subperm.trans hmove) fun givenUp done => ?_
  have hle := hmove.length_le
  rw [List.length_append] at hle
  rw [hcalls, decide_eq_true (show newht₁.entries.length < (kv :: rest ++ new).length by omega),
    Bool.or_true]

end Gathers

/-- The loop of `ResizeHashtable` returns for every sequence of verdicts, with the calls of the
tree. -/
theorem rehash_attempt {insert : Insertion V} {calls : InsertCalls V} {n : ℕ}
    (hatt : Attempts insert calls n) (h : t.WF) (rest : List (HTKeyValue V)) : ∀ {fuel : ℕ}
      {it : HTIter} {newht : HashTable V} (lost : Bool) (s : Schedule),
      Cursor t it rest → rest.length < fuel → newht.WF → newht.numElements + rest.length ≤ n →
      DistinctKeys (rest ++ newht.entries) →
      ∃ worked newht' s', rehash insert t fuel it newht s = .ok ((worked, newht'), s') ∧
        Gathers (rest ++ newht.entries) lost
          (copyCalls calls t.numBuckets newht.numBuckets newht.entries lost rest) s s' worked
          newht' := by
  induction rest with
  | nil =>
    intro fuel it newht lost s hc hfuel hwf _ _
    obtain ⟨fuel, rfl⟩ : ∃ k, fuel = k + 1 := ⟨fuel - 1, (Nat.succ_pred_eq_of_pos hfuel).symm⟩
    refine ⟨true, newht, s, ?_, .made hwf (List.Subperm.refl _) fun givenUp done => ?_⟩
    · simp [rehash, htIteratorPastEnd_spec h hc]
    · simp [copyCalls]
  | cons kv rest ih =>
    intro fuel it newht lost s hc hfuel hwf hn hd
    rw [List.length_cons] at hfuel hn
    obtain ⟨fuel, rfl⟩ : ∃ k, fuel = k + 1 := ⟨fuel - 1, by omega⟩
    obtain ⟨hne, hd'⟩ := distinctKeys_cons.mp hd
    obtain ⟨worked, newht₁, s₁, hins, hgathers⟩ := hatt newht kv s hwf (by omega)
      fun e he => hne e (List.mem_append.mpr (.inr he))
    have hloop : rehash insert t (fuel + 1) it newht s =
        if worked then (htIteratorNext t it >>= fun r => rehash insert t fuel r.2 newht₁) s₁
        else .ok ((false, newht₁), s₁) := by
      cases worked <;>
        simp [rehash, htIteratorPastEnd_spec h hc, htIteratorGet_spec h hc, Run.bind_apply, hins]
    cases hgathers with
    | failed hwf₁ hcalls =>
      -- an insertion fails, and the copy is given up
      exact ⟨false, newht₁, s₁, hloop, .failed hwf₁ fun givenUp installed => hcalls _ _⟩
    | made hwf₁ hsub hcalls =>
      have hnum₁ : newht₁.numElements ≤ newht.numElements + 1 := by
        rw [hwf₁.count, hwf.count]
        exact hsub.length_le
      obtain ⟨it', invalid, hc', hinvalid, hnext⟩ := htIteratorNext_spec h hc
      rw [if_pos rfl] at hloop
      have hgo (s₂ : Schedule) := ih
        (lost || decide (newht₁.entries.length < (kv :: newht.entries).length)) s₂ hc'
        (show rest.length < fuel by omega) hwf₁ (by omega) (hd.subperm (subperm_move rest hsub))
      by_cases hcross : crosses t.numBuckets kv rest = true
      · cases hs : verdict s₁
        · -- no iterator over the next chain, and the loop takes it for the end
          have hrest : 0 < rest.length := by
            cases rest with
            | nil => cases hcross
            | cons => exact Nat.succ_pos _
          obtain ⟨fuel, rfl⟩ : ∃ k, fuel = k + 1 := ⟨fuel - 1, by omega⟩
          refine ⟨true, newht₁, s₁.tail, ?_, .cut hwf₁ hrest hsub fun givenUp installed => ?_⟩
          · rw [hloop, Run.bind_apply, hnext]
            simp [hcross, hs, rehash, htIteratorPastEnd, hinvalid]
          · rw [copyCalls, hcalls, if_pos hcross, CallTree.follow_malloc, hs,
              if_neg Bool.false_ne_true]
        · obtain ⟨worked, newht', s', hrun, hgathers⟩ := hgo s₁.tail
          refine ⟨worked, newht', s', ?_, hgathers.cons hsub fun givenUp installed => ?_⟩
          · rw [hloop, Run.bind_apply, hnext]
            simp [hcross, hs, hrun]
          · rw [copyCalls, hcalls, if_pos hcross, CallTree.follow_malloc, hs, if_pos rfl,
              Bool.false_or]
      · obtain ⟨worked, newht', s', hrun, hgathers⟩ := hgo s₁
        refine ⟨worked, newht', s', ?_, hgathers.cons hsub fun givenUp installed => ?_⟩
        · rw [hloop, Run.bind_apply, hnext]
          simp [hcross, hrun]
        · rw [copyCalls, hcalls, if_neg hcross, Bool.false_or]

/-! ## Resizing and insertion -/

/-- Three times a number of buckets does not wrap to 0. -/
theorem u32_three_pos {n : ℕ} (hpos : 0 < n) (hn : n < 2 ^ 32) : 0 < u32 (3 * n) := by
  refine Nat.pos_of_ne_zero fun hz => ?_
  have hdvd : 2 ^ 32 ∣ n :=
    (show Nat.Coprime (2 ^ 32) 3 by decide).dvd_of_dvd_mul_left (Nat.dvd_of_mod_eq_zero hz)
  exact absurd (Nat.le_of_dvd hpos hdvd) (Nat.not_le_of_lt hn)

/-- `ResizeHashtable` returns for every sequence of verdicts, with a table of old pairs, and with
the calls of the tree, which tells whether one is lost. -/
theorem resizeHashtable_attempt {insert : Insertion V} {calls : InsertCalls V}
    (hatt : Attempts insert calls t.numElements) (h : t.WF) (s : Schedule) :
    ∃ t' s', resizeHashtable insert t s = .ok (t', s') ∧ t'.WF ∧ t'.entries.Subperm t.entries ∧
      ∀ done, (resizeCalls calls t.numBuckets t.entries done).follow s =
        (done t'.numBuckets t'.entries
          (decide (t'.entries.length < t.entries.length))).follow s' := by
  by_cases hsmall : t.numElements < u32 (3 * t.numBuckets)
  · refine ⟨t, s, ?_, h, List.Subperm.refl _, fun done => ?_⟩
    · simp [resizeHashtable, hsmall]
    · simp [resizeCalls, ← h.count, hsmall]
  have hpos := u32_nine_pos h.pos h.small
  have hthree := u32_three_pos h.pos h.small
  have hz : t.numElements ≠ 0 := by omega
  have hcalls (done : ℕ → List (HTKeyValue V) → Bool → CallTree) :
      resizeCalls calls t.numBuckets t.entries done =
        .calls (u32 (t.numBuckets * 9) + 2 + 2)
          (copyCalls calls t.numBuckets (u32 (t.numBuckets * 9)) [] false t.entries
            (done t.numBuckets t.entries false) done)
          (done t.numBuckets t.entries false) := by
    rw [resizeCalls, ← h.count, if_neg hsmall]
  obtain ⟨made, s₁, halloc, hmade⟩ := allocateHashTable_attempt (V := V) hpos s
  obtain ⟨it, hc, -, hattempt⟩ := hashTableMakeIterator_spec h
  obtain ⟨again, s₂, hmake, hagain⟩ := hattempt s₁
  rw [if_neg hz] at hagain
  have hwf := HashTable.wf_fresh (V := V) hpos (u32_lt _)
  rcases hmade.symm with ⟨hserved, rfl, rfl⟩ | ⟨hserved, rfl, rfl⟩
  · refine ⟨t, pastRefused (u32 (t.numBuckets * 9) + 2) s, ?_, h, List.Subperm.refl _,
      fun done => ?_⟩
    · simp [resizeHashtable, hsmall, Run.bind_apply, halloc]
    · simp [hcalls, served_add, pastRefused_add, hserved]
  rcases hagain.symm with ⟨hserved', rfl, hs₂⟩ | ⟨hserved', rfl, hs₂⟩
  · refine ⟨t, s₂, ?_, h, List.Subperm.refl _, fun done => ?_⟩
    · simp [resizeHashtable, hsmall, Run.bind_apply, halloc, hmake, freeHashTable_spec hwf]
    · simp [hcalls, served_add, pastRefused_add, hserved, hserved', hs₂]
  obtain ⟨worked, newht', s', hrun, hgathers⟩ := rehash_attempt hatt h t.entries false s₂ hc
    (show t.entries.length < t.numElements + 1 by rw [h.count]; omega) hwf
    (by rw [h.count, HashTable.fresh_numElements]; omega)
    (by rw [HashTable.fresh_entries, List.append_nil]; exact h.distinct)
  rw [HashTable.fresh_entries, List.append_nil, HashTable.fresh_numBuckets] at hgathers
  have hfollow (done : ℕ → List (HTKeyValue V) → Bool → CallTree) :
      (resizeCalls calls t.numBuckets t.entries done).follow s =
        (copyCalls calls t.numBuckets (u32 (t.numBuckets * 9)) [] false t.entries
          (done t.numBuckets t.entries false) done).follow s₂ := by
    rw [hcalls, CallTree.follow_calls, served_add, hserved, hserved', Bool.and_self, if_pos rfl,
      hs₂, List.drop_drop]
  cases hgathers with
  | failed hwf' hgo =>
    refine ⟨t, s', ?_, h, List.Subperm.refl _, fun done => ?_⟩
    · simp [resizeHashtable, hsmall, Run.bind_apply, halloc, hmake, hrun, freeHashTable_spec hwf']
    · rw [hfollow, hgo, decide_eq_false (Nat.lt_irrefl _)]
  | made hwf' hsub hgo =>
    refine ⟨newht', s', ?_, hwf', hsub, fun done => ?_⟩
    · simp [resizeHashtable, hsmall, Run.bind_apply, halloc, hmake, hrun, freeHashTable_spec h]
    · rw [hfollow, hgo, Bool.false_or]

/-- Insertion, at any nesting bound beyond the number of elements. -/
theorem insertNested_attempts : ∀ (depth : ℕ) {n : ℕ}, n < 2 ^ 32 → n + 1 ≤ depth →
    Attempts (insertNested (V := V) depth) (insertCalls depth) n
  | 0, _, _, hdepth => absurd hdepth (Nat.not_succ_le_zero _)
  | depth + 1, n, hn, hdepth => by
    intro newht kv s hwf hlt hne
    have hroom : newht.numElements < 2 ^ 32 := by omega
    obtain ⟨t₁, s₁, hresize, h₁, hsub, hcalls⟩ := resizeHashtable_attempt
      (insertNested_attempts depth hroom (by omega)) hwf s
    have hle := hsub.length_le
    have hroom₁ : t₁.numElements + 1 < 2 ^ 32 := by
      rw [hwf.count] at hlt
      rw [h₁.count]
      omega
    obtain ⟨t', -, hwf', hnb, hent, hinsert⟩ := insertIntoChain_fresh h₁ hroom₁
      fun e he => hne e (hsub.subset he)
    obtain ⟨result, s', hrun, hresult⟩ := hinsert s₁
    have hstep : insertNested (depth + 1) newht kv s = .ok (result, s') :=
      (Run.bind_ok hresize).trans hrun
    rcases hresult with ⟨hserved, rfl, rfl⟩ | ⟨hserved, rfl, rfl⟩
    · have hperm : t'.entries.Perm (kv :: t₁.entries) := hent ▸ placed_perm _ _ _
      refine ⟨true, t', _, hstep, .made hwf' ?_ fun givenUp done => ?_⟩
      · exact hperm.subperm.trans (List.subperm_cons kv |>.mpr hsub)
      · have hmissing : t₁.entries.length < newht.entries.length ↔
            t'.entries.length < (kv :: newht.entries).length := by
          rw [hperm.length_eq, List.length_cons, List.length_cons]
          omega
        rw [insertCalls, hcalls, CallTree.follow_calls, hserved, if_pos rfl, ← hent, hnb,
          decide_eq_decide.mpr hmissing, Bool.false_or]
    · refine ⟨false, t₁, _, hstep, .failed h₁ fun givenUp done => ?_⟩
      rw [insertCalls, hcalls, CallTree.follow_calls, hserved, if_neg Bool.false_ne_true]

end Failures

end MultithreadedWebServer
