import MultithreadedWebServer.InsertFailures

/-!
# Every resize

When `ResizeHashtable` keeps the map. It does unless the verdicts lead to an end of its tree of
calls where a pair is lost, which depends on the keys in the buckets alone. Mostly the tree is
a list: as long as the new table stays below its own threshold while it is filled, each call
has to succeed for the next one to come, and what counts is the first that fails.
-/

namespace MultithreadedWebServer

section Failures

variable {V : Type} {t : HashTable V}

/-! ## The calls of a table -/

/-- The resize in an insertion into `t`, under the verdicts `s`, keeps the map and the count. -/
def KeepsMap (t : HashTable V) (s : Schedule) : Prop :=
  ∃ t' s', resizeHashtable (insertNested (t.numElements + 1)) t s = .ok (t', s') ∧
    t'.toFinmap = t.toFinmap ∧ t'.numElements = t.numElements

/-- The calls of that resize. -/
def growCalls (t : HashTable V) : CallTree :=
  resizeCalls (insertCalls (t.numElements + 1)) t.numBuckets t.entries fun _ _ lost => .ends lost

/-- A resize keeps the map exactly if no pair is lost on the branch of the verdicts. -/
theorem keepsMap_iff (h : t.WF) (s : Schedule) :
    KeepsMap t s ↔ (growCalls t).follow s = false := by
  have hfits : t.numElements < 2 ^ 32 := h.count ▸ h.fits
  obtain ⟨t', s', hrun, hwf, hsub, hcalls⟩ := resizeHashtable_attempt
    (insertNested_attempts (V := V) (t.numElements + 1) hfits (Nat.le_refl _)) h s
  rw [growCalls, hcalls, CallTree.follow_ends, decide_eq_false_iff_not]
  constructor
  · rintro ⟨t'', s'', hrun', -, hcount⟩
    obtain ⟨rfl, rfl⟩ := Prod.mk.inj (Except.ok.inj (hrun.symm.trans hrun'))
    rw [hwf.count, h.count] at hcount
    omega
  · intro hle
    have hperm : t'.entries.Perm t.entries := hsub.perm_of_length_le (Nat.not_lt.mp hle)
    refine ⟨t', s', hrun, asFinmap_perm hwf.distinct hperm, ?_⟩
    rw [hwf.count, h.count, hperm.length_eq]

/-! ## The first call that fails -/

/-- The calls of the copy loop, when `copied` has been copied and `rest` is to come: `true` for
an iterator over the next chain. -/
def copyPlan (numBuckets newBuckets : ℕ) :
    List (HTKeyValue V) → List (HTKeyValue V) → List Bool
  | _, [] => []
  | copied, kv :: rest =>
    List.replicate (insertMallocs newBuckets copied kv) false ++
      (if crosses numBuckets kv rest then [true] else []) ++
      copyPlan numBuckets newBuckets (kv :: copied) rest

/-- The calls of a resize whose new table stays below its threshold: the new table with its
chains, the iterator, the copy. -/
def resizePlan (t : HashTable V) : List Bool :=
  List.replicate (u32 (t.numBuckets * 9) + 2 + 2) false ++
    copyPlan t.numBuckets (u32 (t.numBuckets * 9)) [] t.entries

/-- The first call of a plan that fails is for an iterator over the next chain. -/
def firstRefused : List Bool → Schedule → Bool
  | [], _ => false
  | nextChain :: plan, s => if verdict s then firstRefused plan s.tail else nextChain

theorem firstRefused_replicate (k : ℕ) (plan : List Bool) (s : Schedule) :
    firstRefused (List.replicate k false ++ plan) s =
      (served k s && firstRefused plan (s.drop k)) := by
  induction k generalizing s with
  | zero => simp [served]
  | succ k ih =>
    rw [List.replicate_succ, List.cons_append, firstRefused, ih, served, List.drop_tail]
    cases verdict s <;> simp

theorem insertMallocs_perm {numBuckets : ℕ} {l l' : List (HTKeyValue V)} (hp : l.Perm l')
    (kv : HTKeyValue V) : insertMallocs numBuckets l kv = insertMallocs numBuckets l' kv := by
  rw [insertMallocs, hp.any_eq, insertMallocs]

/-- An insertion below the threshold calls `malloc` for itself only. -/
theorem insertCalls_small {depth newBuckets : ℕ} {pairs : List (HTKeyValue V)}
    (hsmall : pairs.length < u32 (3 * newBuckets)) (kv : HTKeyValue V) (givenUp : CallTree)
    (done : ℕ → List (HTKeyValue V) → Bool → CallTree) :
    insertCalls (depth + 1) newBuckets pairs kv givenUp done =
      .calls (insertMallocs newBuckets pairs kv)
        (done newBuckets (placed newBuckets kv pairs) false) givenUp := by
  rw [insertCalls, resizeCalls, if_pos hsmall]

/-- While a table stays below its threshold, the first refused call decides. -/
theorem follow_copyCalls (numBuckets newBuckets depth : ℕ) : ∀ (rest : List (HTKeyValue V))
    {copied pairs : List (HTKeyValue V)} (s : Schedule), pairs.Perm copied →
    pairs.length + rest.length ≤ u32 (3 * newBuckets) →
    (copyCalls (insertCalls (depth + 1)) numBuckets newBuckets pairs false rest (.ends false)
      fun _ _ lost => .ends lost).follow s =
        firstRefused (copyPlan numBuckets newBuckets copied rest) s
  | [], _, _, _, _, _ => rfl
  | kv :: rest, copied, pairs, s, hp, hload => by
    rw [List.length_cons] at hload
    have hplaced := placed_perm newBuckets kv pairs
    have hrest (s₂ : Schedule) := follow_copyCalls numBuckets newBuckets depth rest s₂
      (hplaced.trans (hp.cons kv)) (by rw [hplaced.length_eq, List.length_cons]; omega)
    rw [copyCalls, insertCalls_small (by omega), CallTree.follow_calls, copyPlan,
      List.append_assoc, firstRefused_replicate, insertMallocs_perm hp]
    cases served (insertMallocs newBuckets copied kv) s
    · -- an insertion fails
      rfl
    · rw [if_pos rfl, Bool.true_and, Bool.or_false]
      by_cases hcross : crosses numBuckets kv rest = true
      · rw [if_pos hcross, if_pos hcross, CallTree.follow_malloc, hrest]
        rfl
      · rw [if_neg hcross, if_neg hcross, hrest]
        rfl

/-- When the new table stays below its own threshold, a resize loses a pair exactly if its
first failing call is for an iterator over the next chain. -/
theorem follow_growCalls (h : t.WF) (hload : u32 (3 * t.numBuckets) ≤ t.numElements)
    (hroom : t.numElements ≤ u32 (3 * u32 (t.numBuckets * 9))) (s : Schedule) :
    (growCalls t).follow s = firstRefused (resizePlan t) s := by
  rw [h.count] at hload hroom
  have hcopy := follow_copyCalls t.numBuckets (u32 (t.numBuckets * 9)) t.numElements t.entries
    (s.drop (u32 (t.numBuckets * 9) + 2 + 2)) (List.Perm.refl [])
    (by rw [List.length_nil, Nat.zero_add]; exact hroom)
  rw [growCalls, resizeCalls, if_neg (Nat.not_lt.mpr hload), CallTree.follow_calls, hcopy,
    resizePlan, firstRefused_replicate]
  cases served (u32 (t.numBuckets * 9) + 2 + 2) s <;> rfl

/-! ## Tables of all runs -/

variable [DecidableEq V]

/-- The tables of runs in which no `malloc` fails are among those of all runs. -/
theorem HashTable.Reachable.attained (h : t.Reachable) : t.Attained := by
  induction h with
  | allocate hn hrun => exact .allocate hn hrun
  | @insert t t' kv code old h hroom hrun ih =>
    have hn : t.numElements < 2 ^ 32 := Nat.lt_of_succ_lt hroom
    obtain ⟨t₁, hresize, -, -⟩ :=
      resizeHashtable_yields (insertNested_fills (t.numElements + 1) hn (Nat.le_refl _)) h.wf
    have hkeeps : insertDrops t kv [] = false := by
      have hresize : resizeHashtable (insertNested (t.numElements + 1)) t [] = .ok (t₁, []) :=
        hresize
      simp [insertDrops, hresize, dropsPair, served_nil]
    exact ih.insert hroom hkeeps hrun
  | remove _ hrun ih => exact ih.remove hrun
  | walk _ hmake hrun ih => exact ih.walk hmake hrun

/-- In any run in which no insertion drops a pair, whatever else fails: growing keeps the map
and the count exactly if no pair is lost on the branch that the verdicts take in the tree of
its calls; and as long as the new table does not itself grow while it is filled, exactly if the
first call that fails is not one for an iterator over the next chain. -/
theorem resize_keeps_map_iff (h : t.Attained) (hload : u32 (3 * t.numBuckets) ≤ t.numElements)
    (s : Schedule) :
    (KeepsMap t s ↔ (growCalls t).follow s = false) ∧
    (t.numElements ≤ u32 (3 * u32 (t.numBuckets * 9)) →
      (KeepsMap t s ↔ firstRefused (resizePlan t) s = false)) := by
  have hkeeps := keepsMap_iff h.wf s
  refine ⟨hkeeps, fun hroom => ?_⟩
  rw [hkeeps, follow_growCalls h.wf hload hroom]

/-- Where the first failing `malloc` is for a node, the table stays as it is. -/
theorem resize_keeps_map_iff_node : KeepsMap sixPairs (List.replicate 27 true ++ [false, false]) :=
  ((resize_keeps_map_iff reachable_sixPairs.attained (by decide) _).2 (by decide)).mpr (by decide)

/-- The `malloc` that fails is the one for the iterator over the second chain: three pairs of
six are lost. -/
theorem sixPairs_lost : sixPairs.Reachable ∧
    u32 (3 * sixPairs.numBuckets) ≤ sixPairs.numElements ∧
    ¬ KeepsMap sixPairs (List.replicate 28 true ++ [false]) := by
  refine ⟨reachable_sixPairs, by decide, fun ⟨t', s', hrun, _, hcount⟩ => ?_⟩
  have hthree : (resizeHashtable (insertNested 7) sixPairs
      (List.replicate 28 true ++ [false])).toOption.map (fun r => r.1.numElements) = some 3 := by
    decide
  have hrun : resizeHashtable (insertNested 7) sixPairs (List.replicate 28 true ++ [false]) =
    .ok (t', s') := hrun
  rw [hrun] at hthree
  exact absurd (hcount.symm.trans (Option.some.inj hthree)) (by decide)

end Failures

end MultithreadedWebServer
