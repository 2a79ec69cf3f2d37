import Mathlib.Data.List.Induction
import MultithreadedWebServer.ByteStrings

/-!
# Maps of strings

What `m[key] = value` does to the values of the keys, and to several pairs assigned one
after the other. The pairs of a `std::map` are in the order of their keys, so two maps with
the same values are equal.
-/

namespace MultithreadedWebServer

namespace StringMap

/-! ## One assignment -/

variable {key k value : CppString} {m m' : StringMap}

theorem find?_nil : find? [] key = none := rfl

theorem find?_cons (e : CppString × CppString) :
    find? (e :: m) key = if e.1 = key then some e.2 else find? m key := by
  by_cases he : e.1 = key
  · rw [if_pos he, find?, List.find?_cons_of_pos (by simpa using he)]
    rfl
  · rw [if_neg he, find?, List.find?_cons_of_neg (by simpa using he)]
    rfl

/-- The key that was assigned has the new value, the others keep theirs. -/
theorem find?_assign :
    find? (assign k value m) key = if k = key then some value else find? m key := by
  induction m with
  | nil => exact find?_cons (k, value)
  | cons e m ih =>
    obtain ⟨k', v'⟩ := e
    unfold assign
    split
    · rename_i hk
      subst hk
      rw [find?_cons, find?_cons]
      split <;> rfl
    · rename_i hk
      split
      · rw [find?_cons]
      · rw [find?_cons, find?_cons, ih]
        by_cases hkey : k = key
        · subst hkey
          rw [if_neg (Ne.symm hk), if_pos rfl, if_pos rfl]
        · rw [if_neg hkey, if_neg hkey]

/-! ## The order of the keys -/

/-- The keys are in strictly ascending order. -/
def Sorted (m : StringMap) : Prop := m.Pairwise fun e e' => e.1 < e'.1

theorem sorted_nil : Sorted [] := List.Pairwise.nil

theorem mem_assign {e : CppString × CppString} (h : e ∈ assign k value m) :
    e = (k, value) ∨ e ∈ m := by
  induction m with
  | nil => exact .inl (List.mem_singleton.mp h)
  | cons e' m ih =>
    unfold assign at h
    split at h
    · rcases List.mem_cons.mp h with h | h
      · exact .inl h
      · exact .inr (List.mem_cons_of_mem _ h)
    · split at h
      · exact List.mem_cons.mp h
      · rcases List.mem_cons.mp h with h | h
        · exact .inr (h ▸ List.mem_cons_self)
        · exact (ih h).imp_right (List.mem_cons_of_mem _)

/-- An assignment keeps the order. -/
theorem Sorted.assign (h : Sorted m) (k value : CppString) : Sorted (assign k value m) := by
  induction m with
  | nil => exact List.pairwise_singleton ..
  | cons e m ih =>
    obtain ⟨k', v'⟩ := e
    obtain ⟨hlt, hm⟩ := List.pairwise_cons.mp h
    unfold StringMap.assign
    split
    · rename_i hk
      subst hk
      exact List.pairwise_cons.mpr ⟨hlt, hm⟩
    · rename_i hne
      split
      · rename_i hk
        refine List.pairwise_cons.mpr ⟨fun e' he' => ?_, h⟩
        rcases List.mem_cons.mp he' with rfl | he'
        · exact hk
        · exact List.lt_trans hk (hlt e' he')
      · rename_i hk
        refine List.pairwise_cons.mpr ⟨fun e' he' => ?_, ih hm⟩
        rcases mem_assign he' with rfl | he'
        · exact Std.lt_of_le_of_ne (List.not_lt.mp hk) (Ne.symm hne)
        · exact hlt e' he'

/-- The first key of a map is below the others, so they do not have its value. -/
theorem find?_eq_none_of_lt (h : ∀ e ∈ m, key < e.1) : find? m key = none := by
  induction m with
  | nil => rfl
  | cons e m ih =>
    have hne : e.1 ≠ key := by
      intro he
      exact List.lt_irrefl key (he ▸ h e List.mem_cons_self)
    rw [find?_cons, if_neg hne]
    exact ih fun e' he' => h e' (List.mem_cons_of_mem _ he')

/-- Two maps with the same values are equal. -/
theorem Sorted.ext (h : Sorted m) (h' : Sorted m') (hfind : ∀ key, find? m key = find? m' key) :
    m = m' := by
  induction m generalizing m' with
  | nil =>
    cases m' with
    | nil => rfl
    | cons e' m' =>
      have hsome := hfind e'.1
      rw [find?_cons, if_pos rfl] at hsome
      cases hsome
  | cons e m ih =>
    obtain ⟨hlt, hm⟩ := List.pairwise_cons.mp h
    cases m' with
    | nil =>
      have hsome := hfind e.1
      rw [find?_cons, if_pos rfl] at hsome
      cases hsome
    | cons e' m' =>
      obtain ⟨hlt', hm'⟩ := List.pairwise_cons.mp h'
      -- the smaller of the first keys would be missing from the other map
      have hkey : e.1 = e'.1 := by
        by_contra hne
        by_cases hk : e.1 < e'.1
        · have hfirst := hfind e.1
          rw [find?_cons, if_pos rfl, find?_eq_none_of_lt] at hfirst
          · cases hfirst
          · intro f hf
            rcases List.mem_cons.mp hf with rfl | hf
            · exact hk
            · exact List.lt_trans hk (hlt' f hf)
        · have hk' : e'.1 < e.1 := Std.lt_of_le_of_ne (List.not_lt.mp hk) (Ne.symm hne)
          have hfirst := hfind e'.1
          rw [find?_cons (m := m') e', if_pos rfl, find?_eq_none_of_lt] at hfirst
          · cases hfirst
          · intro f hf
            rcases List.mem_cons.mp hf with rfl | hf
            · exact hk'
            · exact List.lt_trans hk' (hlt f hf)
      have hvalue : e.2 = e'.2 := by
        have hfirst := hfind e.1
        rw [find?_cons, find?_cons, if_pos rfl, if_pos hkey.symm] at hfirst
        exact Option.some.inj hfirst
      obtain rfl : e = e' := Prod.ext hkey hvalue
      refine congrArg _ (ih hm hm' fun key => ?_)
      by_cases hk : e.1 = key
      · subst hk
        rw [find?_eq_none_of_lt hlt, find?_eq_none_of_lt hlt']
      · have hrest := hfind key
        rw [find?_cons, find?_cons, if_neg hk, if_neg hk] at hrest
        exact hrest

/-! ## Several assignments -/

/-- Pairs assigned one after the other. -/
def assignAll (m : StringMap) (pairs : List (CppString × CppString)) : StringMap :=
  pairs.foldl (fun m e => assign e.1 e.2 m) m

/-- The map of some pairs; of the pairs with a key the last one counts. -/
def ofPairs (pairs : List (CppString × CppString)) : StringMap := assignAll [] pairs

/-- The value in the last of the pairs with a key. -/
def lastValue (pairs : List (CppString × CppString)) (key : CppString) : Option CppString :=
  (pairs.reverse.find? fun e => e.1 = key).map Prod.snd

theorem lastValue_append_singleton (pairs : List (CppString × CppString))
    (e : CppString × CppString) : lastValue (pairs ++ [e]) key =
      if e.1 = key then some e.2 else lastValue pairs key := by
  rw [lastValue, List.reverse_append, List.reverse_singleton, List.singleton_append]
  exact find?_cons e

theorem Sorted.assignAll (h : Sorted m) (pairs : List (CppString × CppString)) :
    Sorted (assignAll m pairs) := by
  induction pairs generalizing m with
  | nil => exact h
  | cons e pairs ih => exact ih (h.assign e.1 e.2)

theorem assignAll_append (m : StringMap) (pairs pairs' : List (CppString × CppString)) :
    assignAll m (pairs ++ pairs') = assignAll (assignAll m pairs) pairs' := List.foldl_append

/-- A key has its last value, or the one it had before. -/
theorem find?_assignAll (pairs : List (CppString × CppString)) :
    find? (assignAll m pairs) key = (lastValue pairs key).or (find? m key) := by
  induction pairs using List.reverseRecOn with
  | nil => rfl
  | append_singleton pairs e ih =>
    have hlast : assignAll m (pairs ++ [e]) = assign e.1 e.2 (assignAll m pairs) := by
      rw [assignAll_append]
      rfl
    rw [hlast, find?_assign, lastValue_append_singleton, ih]
    split <;> rfl

theorem find?_ofPairs (pairs : List (CppString × CppString)) :
    find? (ofPairs pairs) key = lastValue pairs key := by
  rw [ofPairs, find?_assignAll, find?_nil, Option.or_none]

/-- A key has a value exactly if one of the pairs has the key. -/
theorem lastValue_eq_none_iff {pairs : List (CppString × CppString)} :
    lastValue pairs key = none ↔ key ∉ pairs.map Prod.fst := by
  simp only [lastValue, Option.map_eq_none_iff, List.find?_eq_none, List.mem_reverse,
    decide_eq_true_eq, List.mem_map, not_exists, not_and]

/-- The last value, when all values are changed. -/
theorem lastValue_map (f : CppString → CppString) (pairs : List (CppString × CppString)) :
    lastValue (pairs.map fun e => (e.1, f e.2)) key = (lastValue pairs key).map f := by
  induction pairs using List.reverseRecOn with
  | nil => rfl
  | append_singleton pairs e ih =>
    rw [List.map_append, List.map_singleton, lastValue_append_singleton,
      lastValue_append_singleton, ih]
    split <;> rfl

/-- What was in a map before shows in its keys only, where the pairs do not cover them. -/
theorem assignAll_eq_ofPairs_iff (before pairs : List (CppString × CppString)) :
    assignAll (ofPairs before) pairs = ofPairs pairs ↔
      before.map Prod.fst ⊆ pairs.map Prod.fst := by
  constructor
  · intro heq key hbefore
    by_contra hkey
    have hnone := lastValue_eq_none_iff.mpr hkey
    have hfind : find? (assignAll (ofPairs before) pairs) key = lastValue pairs key := by
      rw [heq, find?_ofPairs]
    rw [find?_assignAll, find?_ofPairs, hnone, Option.none_or] at hfind
    exact lastValue_eq_none_iff.mp hfind hbefore
  · intro hsub
    refine (sorted_nil.assignAll before |>.assignAll pairs).ext (sorted_nil.assignAll pairs)
      fun key => ?_
    change find? (assignAll (ofPairs before) pairs) key = find? (ofPairs pairs) key
    rw [find?_assignAll, find?_ofPairs, find?_ofPairs]
    cases hlast : lastValue pairs key with
    | some value => rfl
    | none =>
      have habsent : key ∉ before.map Prod.fst := fun hmem =>
        lastValue_eq_none_iff.mp hlast (hsub hmem)
      rw [lastValue_eq_none_iff.mpr habsent]
      rfl

end StringMap

end MultithreadedWebServer
