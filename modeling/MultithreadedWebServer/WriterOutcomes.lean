import Mathlib.Data.List.Range
import MultithreadedWebServer.IndexWriterSpec
import MultithreadedWebServer.WriterAudit
import MultithreadedWebServer.WriterJournal

/-!
# What the index writer does when calls fail

For every function of the writer, every journal and every pattern of failures: either a
failure is noticed, and then the function says so, or it returns what the audit of its
calls says, and has written its region of the file as far as the audit says. `Outcome`
puts this together. Either way the function has only appended to the journal, at or behind
the start of its region.

A region that was written without a failure is tiled by the writes: each of its addresses
has been written exactly once.
-/

namespace MultithreadedWebServer

/-! ## Journals that grow -/

/-- `j'` is `j` after the writes `ws`, and `n` failures. -/
structure Journal.Extends (j j' : Journal) (ws : Log) (n : ℕ) : Prop where
  /-- the writes are appended -/
  writes : j'.writes = j.writes ++ ws
  /-- the failures are counted -/
  failures : j'.failures = j.failures + n
  /-- the name of the file stays -/
  linked : j'.file.linked = j.file.linked
  /-- no allocation fails later -/
  mallocs : j'.file.mallocs = j.file.mallocs

theorem Journal.Extends.refl (j : Journal) : j.Extends j [] 0 :=
  ⟨(List.append_nil _).symm, rfl, rfl, rfl⟩

theorem Journal.Extends.trans {j j₁ j₂ : Journal} {ws vs : Log} {n k : ℕ}
    (h₁ : j.Extends j₁ ws n) (h₂ : j₁.Extends j₂ vs k) : j.Extends j₂ (ws ++ vs) (n + k) where
  writes := by rw [h₂.writes, h₁.writes, List.append_assoc]
  failures := by rw [h₂.failures, h₁.failures, Nat.add_assoc]
  linked := h₂.linked.trans h₁.linked
  mallocs := h₂.mallocs.trans h₁.mallocs

theorem Journal.extends_failed (j : Journal) : j.Extends j.failed [] 1 :=
  ⟨(List.append_nil _).symm, rfl, rfl, rfl⟩

/-- All writes are at or behind an offset. -/
def Above (lo : ℕ) (ws : Log) : Prop := ∀ w ∈ ws, lo ≤ w.1

theorem above_nil (lo : ℕ) : Above lo [] := fun w hw => by cases hw

theorem above_cons {lo : ℕ} {w : ℕ × List UInt8} {ws : Log} :
    Above lo (w :: ws) ↔ lo ≤ w.1 ∧ Above lo ws := List.forall_mem_cons

theorem above_append {lo : ℕ} {ws vs : Log} : Above lo (ws ++ vs) ↔ Above lo ws ∧ Above lo vs :=
  List.forall_mem_append

theorem Above.mono {lo lo' : ℕ} {ws : Log} (h : Above lo' ws) (hle : lo ≤ lo') : Above lo ws :=
  fun w hw => hle.trans (h w hw)

/-! ## Outcomes -/

/-- A function has stopped the process. -/
def Dead (r : Except Stop ℕ) : Prop := r = .error .verify333

/-- A function has stopped the process or returned 0. -/
def Refused (r : Except Stop ℕ) : Prop := r = .ok 0 ∨ Dead r

/-- How a function ends that starts with the journal `j`, may write from `lo` on, and is
audited with the result `a`. What it returns and writes when no failure is noticed is
`good`; how it ends when one is noticed is `bad`. -/
inductive Outcome (lo : ℕ) (j : Journal) (bad : Except Stop ℕ → Prop)
    (good : ℕ → Tally → Log → Prop) :
    Option (Tally × List Bool) → Except Stop ℕ × Journal → Prop where
  /-- a failure has been noticed -/
  | noticed {r : Except Stop ℕ} {j' : Journal} {ws : Log} {n : ℕ} (hr : bad r)
    (hext : j.Extends j' ws (n + 1)) (habove : Above lo ws) : Outcome lo j bad good none (r, j')
  /-- no failure has been noticed -/
  | returned {x : ℕ} {t : Tally} {j' : Journal} {ws : Log} (hgood : good x t ws)
    (hext : j.Extends j' ws t.missed) (habove : Above lo ws) :
    Outcome lo j bad good (some (t, j'.file.verdicts)) (.ok x, j')

section Outcome

variable {lo lo' : ℕ} {j j₁ : Journal} {bad bad' : Except Stop ℕ → Prop}
  {good good' : ℕ → Tally → Log → Prop} {a : Option (Tally × List Bool)}
  {r : Except Stop ℕ × Journal}

theorem Outcome.above_mono (h : Outcome lo' j bad good a r) (hle : lo ≤ lo') :
    Outcome lo j bad good a r := by
  cases h with
  | noticed hr hext habove => exact .noticed hr hext (habove.mono hle)
  | returned hgood hext habove => exact .returned hgood hext (habove.mono hle)

/-- What comes after a write that has succeeded. -/
theorem Outcome.front {ws : Log} (hext : j.Extends j₁ ws 0) (habove : Above lo ws) (hle : lo ≤ lo')
    (h : Outcome lo' j₁ bad (fun x t vs => good x t (ws ++ vs)) a r) :
    Outcome lo j bad good a r := by
  cases h with
  | noticed hr hext' habove' =>
    have hall := hext.trans hext'
    rw [Nat.zero_add] at hall
    exact .noticed hr hall (above_append.mpr ⟨habove, habove'.mono hle⟩)
  | returned hgood hext' habove' =>
    have hall := hext.trans hext'
    rw [Nat.zero_add] at hall
    exact .returned hgood hall (above_append.mpr ⟨habove, habove'.mono hle⟩)

/-- What comes after some writes: the audit accounts for them with `f`. -/
theorem Outcome.after {ws : Log} {n : ℕ} {f : Tally → Tally} (h : Outcome lo' j₁ bad good' a r)
    (hext : j.Extends j₁ ws n) (habove : Above lo ws) (hle : lo ≤ lo')
    (hf : ∀ t, (f t).missed = n + t.missed)
    (hgood : ∀ x t vs, good' x t vs → good x (f t) (ws ++ vs)) :
    Outcome lo j bad good (a.map fun p => (f p.1, p.2)) r := by
  cases h with
  | noticed hr hext' habove' =>
    have hall := hext.trans hext'
    exact .noticed hr hall (above_append.mpr ⟨habove, habove'.mono hle⟩)
  | returned hgood' hext' habove' =>
    refine .returned (hgood _ _ _ hgood') ?_ (above_append.mpr ⟨habove, habove'.mono hle⟩)
    rw [hf]
    exact hext.trans hext'

/-- What the audit makes of a tally. -/
theorem Outcome.map {f : Tally → Tally} (h : Outcome lo j bad good' a r)
    (hf : ∀ t, (f t).missed = t.missed) (hgood : ∀ x t ws, good' x t ws → good x (f t) ws) :
    Outcome lo j bad good (a.map fun p => (f p.1, p.2)) r := by
  cases h with
  | noticed hr hext habove => exact .noticed hr hext habove
  | returned hgood' hext habove =>
    refine .returned (hgood _ _ _ hgood') ?_ habove
    rw [hf]
    exact hext

/-- What is made of a result. -/
theorem Outcome.returning {m : WriterCalls ℕ} {g : ℕ → ℕ}
    (h : Outcome lo j Dead (fun x t ws => good (g x) t ws) a (Calls.exec record m j₁)) :
    Outcome lo j Dead good a (Calls.exec record (m >>= fun x => .ret (g x)) j₁) := by
  generalize hrun : Calls.exec record m j₁ = r at h
  cases h with
  | noticed hr hext habove =>
    rw [Calls.exec_bind_error (hrun.trans (congrArg (·, _) hr))]
    exact .noticed rfl hext habove
  | returned hgood hext habove =>
    rw [Calls.exec_bind_ok hrun]
    exact .returned hgood hext habove

/-- What follows a function: when it has noticed a failure, so does the rest. -/
theorem Outcome.sequel {m : WriterCalls ℕ} {k : ℕ → WriterCalls ℕ} {b : Tally → Audit}
    (h : Outcome lo j bad good a (Calls.exec record m j₁))
    (hbad : ∀ r j', bad r → Calls.exec record m j₁ = (r, j') →
      ∃ r', bad' r' ∧ Calls.exec record (m >>= k) j₁ = (r', j'))
    (hk : ∀ x t j₂ ws, good x t ws → j.Extends j₂ ws t.missed → Above lo ws →
      Outcome lo j bad' good' (b t j₂.file.verdicts) (Calls.exec record (k x) j₂)) :
    Outcome lo j bad' good' (a.bind fun p => b p.1 p.2) (Calls.exec record (m >>= k) j₁) := by
  generalize hrun : Calls.exec record m j₁ = r at h
  cases h with
  | noticed hr hext habove =>
    obtain ⟨r', hr', hrun'⟩ := hbad _ _ hr hrun
    rw [hrun']
    exact .noticed hr' hext habove
  | returned hgood hext habove =>
    rw [Calls.exec_bind_ok hrun]
    exact hk _ _ _ _ hgood hext habove

/-- A function that stops the process when it notices a failure. -/
theorem Outcome.unchecked {m : WriterCalls ℕ} {k : ℕ → WriterCalls ℕ} {b : Tally → Audit}
    (h : Outcome lo j Dead good a (Calls.exec record m j₁)) (hbad : bad (.error .verify333))
    (hk : ∀ x t j₂ ws, good x t ws → j.Extends j₂ ws t.missed → Above lo ws →
      Outcome lo j bad good' (b t j₂.file.verdicts) (Calls.exec record (k x) j₂)) :
    Outcome lo j bad good' (a.bind fun p => b p.1 p.2) (Calls.exec record (m >>= k) j₁) :=
  h.sequel (fun _ j' hr hrun =>
    ⟨_, hbad, Calls.exec_bind_error (hrun.trans (congrArg (·, j') hr))⟩) hk

/-- A function whose result is checked, and what follows when it was not 0. -/
theorem Outcome.checked {m : WriterCalls ℕ} {k : ℕ → WriterCalls ℕ} {check : ℕ → Bool}
    {b : Tally → Audit} (h : Outcome lo j Refused good a (Calls.exec record m j₁))
    (hzero : check 0 = false) (hbad : bad (.error .verify333))
    (hk : ∀ x t j₂ ws, good x t ws → j.Extends j₂ ws t.missed → Above lo ws → check x = true ∧
      Outcome lo j bad good' (b t j₂.file.verdicts) (Calls.exec record (k x) j₂)) :
    Outcome lo j bad good' (a.bind fun p => b p.1 p.2)
      (Calls.exec record (m >>= fun x => Calls.verify333 (check x) >>= fun _ => k x) j₁) := by
  refine h.sequel (fun r j' hr hrun => ⟨_, hbad, ?_⟩) fun x t j₂ ws hgood hext habove => ?_
  · rcases hr with rfl | rfl
    · rw [Calls.exec_bind_ok hrun, hzero]
      rfl
    · exact Calls.exec_bind_error hrun
  · obtain ⟨hx, hrest⟩ := hk x t j₂ ws hgood hext habove
    rw [hx]
    exact hrest

end Outcome

/-! ## Calls -/

namespace WriterCalls

section Calls

variable {α : Type} {j : Journal}

theorem served_two (s : List Bool) : served 2 s = (verdict s && verdict s.tail) := by
  rw [served, served, served, Bool.and_true]

theorem exec_fseek (p : ℕ) (k : Bool → WriterCalls α) : Calls.exec record (fseek p >>= k) j =
    if verdict j.file.verdicts then Calls.exec record (k true) (j.sought p)
    else Calls.exec record (k false) j.failed := by
  by_cases h : verdict j.file.verdicts
  · rw [if_pos h]
    exact Calls.exec_call (if_pos h)
  · rw [if_neg h]
    exact Calls.exec_call (if_neg h)

theorem exec_fwrite {d : List UInt8} (hd : d ≠ []) (k : ℕ → WriterCalls α) :
    Calls.exec record (fwrite d >>= k) j =
      if verdict j.file.verdicts then Calls.exec record (k 1) (j.wrote d)
      else Calls.exec record (k 0) j.failed := by
  by_cases h : verdict j.file.verdicts
  · rw [if_pos h]
    exact Calls.exec_call ((if_neg hd).trans (if_pos h))
  · rw [if_neg h]
    exact Calls.exec_call ((if_neg hd).trans (if_neg h))

/-- A call of `fseek` and one of `fwrite` that both succeed. -/
theorem exec_pair_served {p : ℕ} {d : List UInt8} (hd : d ≠ []) (m n fail : WriterCalls α)
    (h : served 2 j.file.verdicts = true) : ∃ j₁, j.Extends j₁ [(p, d)] 0 ∧
      j₁.file.verdicts = j.file.verdicts.drop 2 ∧ j₁.file.pos = p + d.length ∧
      Calls.exec record (do if ← fseek p then (if (← fwrite d) ≠ 1 then n else m) else fail) j =
        Calls.exec record m j₁ := by
  rw [served_two, Bool.and_eq_true] at h
  have hwrite : verdict (j.sought p).file.verdicts = true := h.2
  refine ⟨(j.sought p).wrote d, ⟨rfl, rfl, rfl, rfl⟩, ?_, rfl, ?_⟩
  · rw [← List.tail_drop, List.drop_one]
    rfl
  · rw [exec_fseek, if_pos h.1, if_pos rfl, exec_fwrite hd, if_pos hwrite]
    rfl

/-- One of the two fails. -/
theorem exec_pair_failed {p : ℕ} {d : List UInt8} (hd : d ≠ []) (m n : WriterCalls α)
    (h : ¬ served 2 j.file.verdicts = true) : ∃ j', j.Extends j' [] 1 ∧
      j'.file.verdicts = afterFailedPair j.file.verdicts ∧
      Calls.exec record (do if ← fseek p then (if (← fwrite d) ≠ 1 then n else m) else n) j =
        Calls.exec record n j' := by
  rw [served_two, Bool.and_eq_true] at h
  rw [exec_fseek, afterFailedPair]
  by_cases hseek : verdict j.file.verdicts
  · have hwrite : ¬ verdict (j.sought p).file.verdicts = true := fun hw => h ⟨hseek, hw⟩
    refine ⟨(j.sought p).failed, ⟨(List.append_nil _).symm, rfl, rfl, rfl⟩, ?_, ?_⟩
    · rw [if_pos hseek, ← List.tail_drop, List.drop_one]
      rfl
    · rw [if_pos hseek, if_pos rfl, exec_fwrite hd, if_neg hwrite]
      rfl
  · refine ⟨j.failed, j.extends_failed, ?_, ?_⟩
    · rw [if_neg hseek, List.drop_one]
      rfl
    · rw [if_neg hseek]
      rfl

/-- Allocations succeed. -/
theorem exec_withMallocs {m : Run Schedule (Option LLIter)} {it : Option LLIter}
    (hm : Yields m it) (hmallocs : j.file.mallocs = []) (k : Option LLIter → WriterCalls α) :
    Calls.exec record (withMallocs m >>= k) j = Calls.exec record (k it) j := by
  obtain ⟨⟨linked, content, pos, verdicts, mallocs⟩, writes, failures⟩ := j
  obtain rfl : mallocs = [] := hmallocs
  have hcall : record (.alloc m) ⟨⟨linked, content, pos, verdicts, []⟩, writes, failures⟩ =
      .ok (it, ⟨⟨linked, content, pos, verdicts, []⟩, writes, failures⟩) := by
    rw [record, (hm : m [] = .ok (it, []))]
  exact Calls.exec_call hcall

end Calls

/-! ## Regions -/

/-- All addresses that some writes touch. -/
def touched (ws : Log) : List ℕ := ws.flatMap addresses

@[simp] theorem touched_nil : touched [] = [] := rfl

@[simp] theorem touched_cons (w : ℕ × List UInt8) (ws : Log) :
    touched (w :: ws) = addresses w ++ touched ws := List.flatMap_cons

@[simp] theorem touched_append (ws vs : Log) :
    touched (ws ++ vs) = touched ws ++ touched vs := List.flatMap_append

/-- Two pairs of neighbouring ranges, written in turn. -/
theorem perm_ranges {as bs : List ℕ} {p q m n k l : ℕ}
    (has : as.Perm (List.range' p m ++ List.range' q k))
    (hbs : bs.Perm (List.range' (p + m) n ++ List.range' (q + k) l)) :
    (as ++ bs).Perm (List.range' p (m + n) ++ List.range' q (k + l)) := by
  rw [← List.range'_append_1, ← List.range'_append_1]
  refine (has.append hbs).trans ?_
  rw [List.append_assoc, List.append_assoc, ← List.append_assoc (List.range' q k)]
  exact .append_left _ ((List.perm_append_comm.append_right _).trans
    (.of_eq (List.append_assoc ..)))

theorem lt_extent_of_touched {ws : Log} {i : ℕ} (h : i ∈ touched ws) : i < extent ws := by
  induction ws with
  | nil => cases h
  | cons w ws ih =>
    rw [extent_cons]
    rcases List.mem_append.mp (touched_cons w ws ▸ h) with h | h
    · have hlt := (List.mem_range'_1.mp h).2
      omega
    · have hlt := ih h
      omega

/-- A region of at most `n` bytes has been written. -/
structure Written (p n : ℕ) (x : ℕ) (t : Tally) (ws : Log) : Prop where
  /-- its size is returned -/
  value : x = t.size
  /-- there is room for it -/
  size_le : t.size ≤ n
  /-- something has been written -/
  short_lt : t.short < t.size
  /-- up to the bytes that are missing at the end -/
  reach : extent ws + t.short = p + t.size
  /-- all of it, once, if nothing failed -/
  tiles : t.missed = 0 → (touched ws).Perm (List.range' p t.size)

/-- When nothing failed, nothing is missing. -/
theorem Written.short_eq_zero {p n x : ℕ} {t : Tally} {ws : Log} (h : Written p n x t ws)
    (hmissed : t.missed = 0) : t.short = 0 := by
  have hlt := h.short_lt
  have hreach := h.reach
  have hlast : p + t.size - 1 ∈ touched ws := by
    rw [(h.tiles hmissed).mem_iff, List.mem_range'_1]
    omega
  have hext := lt_extent_of_touched hlast
  omega

section Table

variable {V : Type} {fn : WriteElementFn V} {audit : HTKeyValue V → Audit}
  {size : HTKeyValue V → ℕ}

/-- The element function writes the elements of a chain, or notices that it does not. -/
def ElementOutcomes (fn : WriteElementFn V) (audit : HTKeyValue V → Audit)
    (size : HTKeyValue V → ℕ) (chain : List (HTKeyValue V)) : Prop :=
  ∀ kv ∈ chain, ∀ p j, p + size kv < 2 ^ 32 → j.file.mallocs = [] →
    Outcome p j Refused (Written p (size kv)) (audit kv j.file.verdicts)
      (Calls.exec record (fn p kv) j)

/-- Elements have been written from `next` on, and their positions from `pos` on. -/
structure ElementsWritten (pos next bl n count : ℕ) (x : ℕ) (t : Tally) (ws : Log) : Prop where
  /-- their size is added to what is returned -/
  value : x = bl + t.size
  /-- there is room for them -/
  size_le : t.size ≤ n
  /-- no element, no write -/
  empty : count = 0 → t.size = 0 ∧ t.short = 0 ∧ ws = []
  /-- they are written up to the bytes that are missing at the end -/
  reach : 0 < count → t.short < t.size ∧ extent ws + t.short = next + t.size
  /-- all of them, once, if nothing failed -/
  tiles : t.missed = 0 →
    (touched ws).Perm (List.range' pos (4 * count) ++ List.range' next t.size)

/-- One more element in front. -/
theorem Written.elements_cons {pos next bl n m count x y : ℕ} {t u : Tally} {d : List UInt8}
    {ws vs : Log} (hd : d.length = 4) (hroom : pos + 4 * (count + 1) ≤ next)
    (ht : Written next n x t ws) (hu : ElementsWritten (pos + 4) (next + t.size) (bl + t.size) m
      count y u vs) :
    ElementsWritten pos next bl (n + m) (count + 1) y (t.andThen u) ((pos, d) :: (ws ++ vs)) where
  value := by rw [hu.value, Tally.andThen, Nat.add_assoc]
  size_le := Nat.add_le_add ht.size_le hu.size_le
  empty := fun h => absurd h (Nat.succ_ne_zero _)
  reach := fun _ => by
    have hshort := ht.short_lt
    have hreach := ht.reach
    have hext : extent ((pos, d) :: (ws ++ vs)) = max (pos + 4) (max (extent ws) (extent vs)) := by
      rw [extent_cons, extent_append, hd]
    rw [hext, Tally.andThen]
    dsimp only
    by_cases hcount : count = 0
    · obtain ⟨hsize, -, rfl⟩ := hu.empty hcount
      rw [if_pos hsize, hsize, extent_nil]
      omega
    · obtain ⟨hlt, hreach'⟩ := hu.reach (Nat.pos_of_ne_zero hcount)
      rw [if_neg (by omega)]
      omega
  tiles := fun hmissed => by
    have hmissed' : t.missed + u.missed = 0 := hmissed
    have hfirst : (touched ((pos, d) :: ws)).Perm
        (List.range' pos 4 ++ List.range' next t.size) := by
      rw [touched_cons, addresses, hd]
      exact (ht.tiles (by omega)).append_left _
    have hall := perm_ranges hfirst (hu.tiles (by omega))
    rw [show 4 * (count + 1) = 4 + 4 * count by omega, ← List.cons_append, touched_append]
    exact hall

/-- The loop of `WriteBucket`. -/
theorem writeElements_outcome {li : LinkedList (HTKeyValue V)} (offset : ℕ) :
    ∀ (left done : List (Addr × HTKeyValue V)) (p : Ptr) (bl next : ℕ) (j : Journal),
    Repr li (done ++ left) → offset + done.length * 4 + 4 * left.length ≤ next → bl ≤ next →
    next + elementsSize size (left.map Prod.snd) < 2 ^ 32 → j.file.mallocs = [] →
    ElementOutcomes fn audit size (left.map Prod.snd) →
    Outcome (offset + done.length * 4) j Refused
      (ElementsWritten (offset + done.length * 4) next bl
        (elementsSize size (left.map Prod.snd)) left.length)
      (auditElements audit (left.map Prod.snd) j.file.verdicts)
      (Calls.exec record
        (writeElements fn li offset left.length done.length ⟨firstAddr left p⟩ bl next) j)
  | [], done, p, bl, next, j, _, _, _, _, _, _ =>
    .returned ⟨rfl, Nat.zero_le _, fun _ => ⟨rfl, rfl, rfl⟩, fun h => absurd h (Nat.lt_irrefl 0),
      fun _ => .refl _⟩ (.refl j) (above_nil _)
  | (a, kv) :: left, done, p, bl, next, j, hli, hroom, hbl, hfit, hmallocs, hfn => by
    have hcursor := hli
    rw [List.append_cons] at hli
    rw [List.length_cons] at hroom ⊢
    rw [List.map_cons] at hfit hfn ⊢
    rw [elementsSize_cons] at hfit ⊢
    dsimp only at hfit hfn ⊢
    have hdone : (done ++ [(a, kv)]).length * 4 = done.length * 4 + 4 := by
      rw [List.length_append, List.length_singleton]
      omega
    have hrec : (onDisk (⟨UInt32.ofNat next⟩ : ElementPositionRec)).length = 4 := length_onDisk _
    rw [writeElements, auditElements]
    dsimp only
    by_cases hserved : served 2 j.file.verdicts = true
    · obtain ⟨j₁, hext, hverdicts, -, hrun⟩ := exec_pair_served (onDisk_ne_nil
        (⟨UInt32.ofNat next⟩ : ElementPositionRec)) _ (.ret 0) (.ret 0) hserved
      refine hrun ▸ ?_
      rw [if_pos hserved, firstAddr, llIteratorGetPayload_spec hcursor, Calls.compute_pure,
        Calls.ret_bind, llIteratorNext_spec hcursor, Calls.compute_pure, ← hverdicts]
      refine Outcome.front hext (above_cons.mpr ⟨Nat.le_refl _, above_nil _⟩) (Nat.le_refl _) ?_
      have helem := (hfn kv List.mem_cons_self next j₁ (by omega)
        (hext.mallocs.trans hmallocs)).above_mono
          (show offset + done.length * 4 ≤ next by omega)
      refine Outcome.checked (b := fun t verdicts =>
        (auditElements audit (left.map Prod.snd) verdicts).map fun p => (t.andThen p.1, p.2))
        helem ?_ ?_ fun x t j₂ ws ht hext₂ habove => ⟨?_, ?_⟩
      · rfl
      · exact .inr rfl
      · have hlt := ht.short_lt
        rw [ht.value]
        exact decide_eq_true (by omega)
      · have hle := ht.size_le
        rw [ht.value, u32_of_lt (by omega), u32_of_lt (by omega)]
        have hrest := writeElements_outcome offset left (done ++ [(a, kv)]) (some a)
          (bl + t.size) (next + t.size) j₂ hli (by omega) (by omega) (by omega)
          (hext₂.mallocs.trans (hext.mallocs.trans hmallocs))
          fun e he => hfn e (List.mem_cons_of_mem _ he)
        rw [hdone, List.length_append, List.length_singleton, ← Nat.add_assoc] at hrest
        refine hrest.after (f := t.andThen) hext₂ habove (Nat.le_add_right _ _) (fun _ => rfl)
          fun y u vs hu => ?_
        have hcons := ht.elements_cons hrec hroom hu
        exact hcons
    · obtain ⟨j', hext, -, hrun⟩ := exec_pair_failed (onDisk_ne_nil
        (⟨UInt32.ofNat next⟩ : ElementPositionRec)) _ (.ret 0) hserved
      rw [if_neg hserved]
      refine hrun ▸ .noticed (.inl rfl) hext (above_nil _)

/-- `WriteBucket`. -/
theorem writeBucket_outcome {li : LinkedList (HTKeyValue V)} {cs : List (Addr × HTKeyValue V)}
    {offset : ℕ} {j : Journal} (hli : Repr li cs) (hne : cs ≠ [])
    (hfn : ElementOutcomes fn audit size (cs.map Prod.snd))
    (hfit : offset + bucketSize size (cs.map Prod.snd) < 2 ^ 32) (hmallocs : j.file.mallocs = []) :
    Outcome offset j Refused (Written offset (bucketSize size (cs.map Prod.snd)))
      (auditBucket audit (cs.map Prod.snd) j.file.verdicts)
      (Calls.exec record (writeBucket fn li offset) j) := by
  have hmake : Yields (llMakeIterator li 0) (some ⟨firstAddr cs none⟩) := by
    obtain ⟨c, rest, rfl⟩ := List.exists_cons_of_ne_nil hne
    exact llMakeIterator_yields hli
  have hpos := List.length_pos_iff.mpr hne
  have hlen : (cs.map Prod.snd).length = cs.length := List.length_map ..
  rw [bucketSize, hlen] at hfit ⊢
  have helems := writeElements_outcome offset cs [] none (4 * cs.length)
    (offset + 4 * cs.length) j hli (by rw [List.length_nil]; omega) (by omega) (by omega) hmallocs
    hfn
  rw [List.length_nil, Nat.zero_mul, Nat.add_zero] at helems
  rw [writeBucket, numElementsInLinkedList, hli.count, u32_of_lt (show 4 * cs.length < 2 ^ 32 by
    omega), u32_of_lt (show offset + 4 * cs.length < 2 ^ 32 by omega), auditBucket, hlen]
  dsimp only
  rw [if_pos hpos, exec_withMallocs hmake hmallocs]
  refine helems.map (f := fun t => ⟨4 * cs.length + t.size, t.missed, t.short⟩) (fun _ => rfl)
    fun x t ws h => ?_
  obtain ⟨hlt, hreach⟩ := h.reach hpos
  refine ⟨h.value, Nat.add_le_add_left h.size_le _, ?_, ?_, fun hmissed => ?_⟩
  · exact Nat.lt_add_left _ hlt
  · rw [hreach, Nat.add_assoc]
  · rw [← List.range'_append_1]
    exact h.tiles hmissed

/-- Buckets have been written from `q` on, and their records from `r` on. -/
structure BucketsWritten (r q n count : ℕ) (x : ℕ) (t : Tally) (ws : Log) : Prop where
  /-- the next offset is returned -/
  value : x = q + t.size
  /-- there is room for them -/
  size_le : t.size ≤ n
  /-- nothing is missing when there is nothing -/
  short : t.short < t.size ∨ t.size = 0 ∧ t.short = 0
  /-- they are written up to the bytes that are missing at the end -/
  reach : max r (extent ws) + t.short = if t.size = 0 then r + 8 * count else q + t.size
  /-- all of them, once, if nothing failed -/
  tiles : t.missed = 0 →
    (touched ws).Perm (List.range' r (8 * count) ++ List.range' q t.size)

/-- A bucket, which may be empty. -/
structure BucketWritten (q n : ℕ) (t : Tally) (ws : Log) : Prop where
  /-- there is room for it -/
  size_le : t.size ≤ n
  /-- it is written, unless it is empty -/
  reach : t.short < t.size ∧ extent ws + t.short = q + t.size ∨
    t.size = 0 ∧ t.short = 0 ∧ ws = []
  /-- all of it, once, if nothing failed -/
  tiles : t.missed = 0 → (touched ws).Perm (List.range' q t.size)

/-- One more bucket in front. -/
theorem BucketWritten.buckets_cons {r q n m count y : ℕ} {t u : Tally} {d : List UInt8}
    {ws vs : Log} (hd : d.length = 8) (hroom : r + 8 * (count + 1) ≤ q)
    (ht : BucketWritten q n t ws) (hu : BucketsWritten (r + 8) (q + t.size) m count y u vs) :
    BucketsWritten r q (n + m) (count + 1) y (t.andThen u) ((r, d) :: (ws ++ vs)) where
  value := by rw [hu.value, Tally.andThen, Nat.add_assoc]
  size_le := Nat.add_le_add ht.size_le hu.size_le
  short := by
    have hshort := hu.short
    have hreach := ht.reach
    rw [Tally.andThen]
    dsimp only
    split_ifs <;> omega
  reach := by
    have hshort := hu.short
    have hext : extent ((r, d) :: (ws ++ vs)) = max (r + 8) (max (extent ws) (extent vs)) := by
      rw [extent_cons, extent_append, hd]
    have hreach := hu.reach
    rw [hext, Tally.andThen]
    dsimp only
    rcases ht.reach with ⟨hlt, hreach'⟩ | ⟨hsize, hzero, rfl⟩
    · split_ifs at hreach ⊢ <;> omega
    · rw [extent_nil]
      split_ifs at hreach ⊢ <;> omega
  tiles := fun hmissed => by
    have hmissed' : t.missed + u.missed = 0 := hmissed
    have hfirst : (touched ((r, d) :: ws)).Perm (List.range' r 8 ++ List.range' q t.size) := by
      rw [touched_cons, addresses, hd]
      exact (ht.tiles (by omega)).append_left _
    have hall := perm_ranges hfirst (hu.tiles (by omega))
    rw [show 8 * (count + 1) = 8 + 8 * count by omega, ← List.cons_append, touched_append]
    exact hall

/-- The loop of `WriteHashTable`. -/
theorem writeBuckets_outcome {table : HashTable V} :
    ∀ (left done : List (LinkedList (HTKeyValue V)))
    (r q : ℕ) (j : Journal), table.buckets = done ++ left → (∀ li ∈ left, li.WF) →
    r + 8 * left.length ≤ q →
    q + bucketsSize size (left.map LinkedList.toList) < 2 ^ 32 → j.file.mallocs = [] →
    (∀ li ∈ left, ElementOutcomes fn audit size li.toList) →
    Outcome r j Dead
      (BucketsWritten r q (bucketsSize size (left.map LinkedList.toList)) left.length)
      (auditBuckets audit (left.map LinkedList.toList) j.file.verdicts)
      (Calls.exec record (writeBuckets fn table left.length done.length r q) j)
  | [], done, r, q, j, _, _, _, _, _, _ => by
    refine .returned ⟨rfl, Nat.zero_le _, .inr ⟨rfl, rfl⟩, ?_, fun _ => .refl _⟩ (.refl j)
      (above_nil _)
    rw [extent_nil, Nat.max_zero, if_pos rfl]
    rfl
  | li :: left, done, r, q, j, hht, hwf, hroom, hfit, hmallocs, hfn => by
    have hget : table.buckets[done.length]? = some li := by rw [hht]; simp
    have hli := hwf li List.mem_cons_self
    rw [List.append_cons] at hht
    rw [List.length_cons] at hroom ⊢
    rw [List.map_cons, bucketsSize_cons] at hfit ⊢
    have hdone : (done ++ [li]).length = done.length + 1 := by simp
    have hrec : (onDisk (⟨UInt32.ofNat (numElementsInLinkedList li), UInt32.ofNat q⟩ :
      BucketRec)).length = 8 := length_onDisk _
    rw [writeBuckets, bucketAt_of hget, Calls.compute_pure, Calls.ret_bind, auditBuckets]
    by_cases hserved : served 2 j.file.verdicts = true
    · obtain ⟨j₁, hext, hverdicts, -, hrun⟩ := exec_pair_served (onDisk_ne_nil
        (⟨UInt32.ofNat (numElementsInLinkedList li), UInt32.ofNat q⟩ : BucketRec)) (.ret 8) (.ret 0)
        (.ret 0) hserved
      have hrun' : Calls.exec record (writeBucketRecord li r q) j = (.ok 8, j₁) := hrun
      rw [Calls.exec_bind_ok hrun', if_pos hserved]
      refine Outcome.front hext (above_cons.mpr ⟨Nat.le_refl _, above_nil _⟩) (Nat.le_refl _) ?_
      have hmallocs₁ := hext.mallocs.trans hmallocs
      rw [← hverdicts, u32_of_lt (show r + 8 < 2 ^ 32 by omega)]
      -- the buckets behind this one
      have hrest {t : Tally} {ws : Log} {j₂ : Journal}
          (ht : BucketWritten q (bucketSize size li.toList) t ws)
          (hext₂ : j₁.Extends j₂ ws t.missed)
          (habove : Above r ws) : Outcome r j₁ Dead
          (fun x u vs => BucketsWritten r q (bucketSize size li.toList +
            bucketsSize size (left.map LinkedList.toList)) (left.length + 1) x u
            ([(r, onDisk (⟨UInt32.ofNat (numElementsInLinkedList li), UInt32.ofNat q⟩ :
              BucketRec))] ++ vs))
          ((auditBuckets audit (left.map LinkedList.toList) j₂.file.verdicts).map
            fun p => (t.andThen p.1, p.2))
          (Calls.exec record (writeBuckets fn table left.length (done.length + 1) (r + 8)
            (q + t.size)) j₂) := by
        have hle := ht.size_le
        have hbuckets := writeBuckets_outcome left (done ++ [li]) (r + 8) (q + t.size) j₂ hht
          (fun l hl => hwf l (List.mem_cons_of_mem _ hl)) (by omega) (by omega)
          (hext₂.mallocs.trans hmallocs₁) fun l hl => hfn l (List.mem_cons_of_mem _ hl)
        rw [hdone] at hbuckets
        refine hbuckets.after (f := t.andThen) hext₂ habove (Nat.le_add_right _ _) (fun _ => rfl)
          fun y u vs hu => ?_
        have hcons := ht.buckets_cons hrec hroom hu
        exact hcons
      by_cases hnil : li.toList = []
      · have hcount : ¬ 0 < numElementsInLinkedList li := by
          rw [numElementsInLinkedList, hli.numElements_eq, hnil]
          exact Nat.lt_irrefl 0
        have hnone : BucketWritten q (bucketSize size li.toList) ⟨0, 0, 0⟩ [] :=
          ⟨Nat.zero_le _, .inr ⟨rfl, rfl, rfl⟩, fun _ => .refl _⟩
        have hempty := hrest hnone (.refl j₁) (above_nil _)
        rw [if_neg hcount, hnil] at *
        exact hempty
      · have hpos : 0 < numElementsInLinkedList li := by
          rw [numElementsInLinkedList, hli.numElements_eq]
          exact List.length_pos_iff.mpr hnil
        rw [if_pos hpos]
        have hbucket := (writeBucket_outcome hli
          (fun h => hnil (congrArg (List.map Prod.snd) h)) (hfn li List.mem_cons_self)
          (show q + bucketSize size li.toList < 2 ^ 32 by omega) hmallocs₁).above_mono
            (show r ≤ q by omega)
        refine Outcome.checked (b := fun t verdicts =>
          (auditBuckets audit (left.map LinkedList.toList) verdicts).map
            fun p => (t.andThen p.1, p.2)) hbucket ?_ ?_ fun x t j₂ ws ht hext₂ habove => ⟨?_, ?_⟩
        · rfl
        · rfl
        · have hlt := ht.short_lt
          rw [ht.value]
          exact decide_eq_true (show t.size ≠ 0 by omega)
        · have hle : t.size ≤ bucketSize size li.toList := ht.size_le
          rw [ht.value, u32_of_lt (show q + t.size < 2 ^ 32 by omega)]
          exact hrest ⟨hle, .inl ⟨ht.short_lt, ht.reach⟩, ht.tiles⟩ hext₂ habove
    · obtain ⟨j', hext, -, hrun⟩ := exec_pair_failed (onDisk_ne_nil
        (⟨UInt32.ofNat (numElementsInLinkedList li), UInt32.ofNat q⟩ : BucketRec)) (.ret 8) (.ret 0)
        hserved
      have hrun' : Calls.exec record (writeBucketRecord li r q) j = (.ok 0, j') := hrun
      rw [Calls.exec_bind_ok hrun', if_neg hserved]
      exact .noticed rfl hext (above_nil _)

/-- `WriteHashTable`: the table is written, or its header is not and nobody notices. -/
def TableWritten (p n : ℕ) (x : ℕ) (t : Tally) (ws : Log) : Prop :=
  Written p n x t ws ∨ x = 0 ∧ t = ⟨0, 1, 0⟩ ∧ ws = []

theorem writeHashTable_outcome {table : HashTable V} {offset : ℕ} {j : Journal} (h : table.WF)
    (hfn : ElementOutcomes fn audit size table.entries)
    (hfit : offset + tableSize size table.chains < 2 ^ 32) (hmallocs : j.file.mallocs = []) :
    Outcome offset j Dead (TableWritten offset (tableSize size table.chains))
      (auditTable audit table.chains j.file.verdicts)
      (Calls.exec record (writeHashTable table offset fn) j) := by
  have hchains : table.chains.length = table.numBuckets := by
    rw [h.size]
    exact List.length_map ..
  have hheader : (onDisk (⟨UInt32.ofNat table.numBuckets⟩ : BucketListHeader)).length = 4 :=
    length_onDisk _
  rw [tableSize, hchains] at hfit ⊢
  rw [writeHashTable, auditTable, hchains, u32_of_lt (show offset + 4 < 2 ^ 32 by omega),
    u32_of_lt (show offset + 4 + table.numBuckets * 8 < 2 ^ 32 by omega)]
  dsimp only
  by_cases hserved : served 2 j.file.verdicts = true
  · obtain ⟨j₁, hext, hverdicts, -, hrun⟩ := exec_pair_served (onDisk_ne_nil
      (⟨UInt32.ofNat table.numBuckets⟩ : BucketListHeader)) _ (.ret 0) (.ret 0) hserved
    rw [if_pos hserved]
    refine hrun ▸ ?_
    refine Outcome.front hext (above_cons.mpr ⟨Nat.le_refl _, above_nil _⟩) (Nat.le_refl _) ?_
    have hfit' : offset + 4 + table.numBuckets * 8 + bucketsSize size table.chains < 2 ^ 32 := by
      omega
    have hbuckets := (writeBuckets_outcome table.buckets [] (offset + 4)
      (offset + 4 + table.numBuckets * 8) j₁ rfl h.chains (by rw [← h.size]; omega) hfit'
      (hext.mallocs.trans hmallocs) fun li hli kv hkv =>
        hfn kv (List.mem_flatMap.mpr ⟨li, hli, hkv⟩)).above_mono (Nat.le_add_right offset 4)
    rw [← h.size, hverdicts] at hbuckets
    refine Outcome.returning (hbuckets.map
      (f := fun t => ⟨4 + (8 * table.numBuckets + t.size), t.missed, t.short⟩) (fun _ => rfl)
      fun x t ws hw => .inl ?_)
    have hle : t.size ≤ bucketsSize size table.chains := hw.size_le
    have hshort := hw.short
    have hreach := hw.reach
    have hext' (d : List UInt8) (hd : d.length = 4) :
        extent ([(offset, d)] ++ ws) = max (offset + 4) (extent ws) := by
      rw [extent_append, extent_cons, extent_nil, hd, Nat.max_zero]
    refine ⟨?_, ?_, ?_, ?_, fun hmissed => ?_⟩
    · rw [hw.value, u32Sub_of_le (by omega) (by omega)]
      dsimp only
      omega
    · dsimp only
      omega
    · dsimp only
      omega
    · rw [hext' _ hheader]
      dsimp only
      split_ifs at hreach <;> omega
    · have hranges : List.range' (offset + 4) (table.numBuckets * 8) ++
          List.range' (offset + 4 + table.numBuckets * 8) t.size =
          List.range' (offset + 4) (table.numBuckets * 8 + t.size) := List.range'_append_1
      rw [touched_append, touched_cons, touched_nil, List.append_nil, addresses, hheader,
        ← List.range'_append_1, Nat.mul_comm 8, ← hranges]
      have htiles := hw.tiles hmissed
      rw [Nat.mul_comm 8] at htiles
      exact htiles.append_left _
  · obtain ⟨j', hext, hverdicts, hrun⟩ := exec_pair_failed (onDisk_ne_nil
      (⟨UInt32.ofNat table.numBuckets⟩ : BucketListHeader)) _ (.ret 0) hserved
    rw [if_neg hserved, ← hverdicts]
    exact hrun ▸ .returned (.inr ⟨rfl, rfl, rfl⟩) hext (above_nil _)

end Table

/-! ## Elements -/

theorem served_add_one : ∀ (n : ℕ) (s : List Bool),
    served (n + 1) s = (served n s && verdict (s.drop n))
  | 0, s => by rw [served, served, served, Bool.and_true, Bool.true_and, List.drop_zero]
  | n + 1, s => by
    rw [served, served_add_one n s.tail, served, Bool.and_assoc, List.drop_tail]

/-- A header and some bytes behind it have been written, and `x` is returned. -/
def HeadWritten (p : ℕ) (d e : List UInt8) (x y : ℕ) (t : Tally) (ws : Log) : Prop :=
  y = x ∧ t = ⟨0, 0, 0⟩ ∧ ws = [(p, d), (p + d.length, e)]

theorem headed_outcome {p x : ℕ} {d e : List UInt8} {j : Journal} (hd : d ≠ []) (he : e ≠ []) :
    Outcome p j Refused (HeadWritten p d e x) (auditHeaded j.file.verdicts)
      (Calls.exec record (do
        if ← fseek p then
          if (← fwrite d) ≠ 1 then return 0 else if (← fwrite e) ≠ 1 then return 0 else return x
        else return 0) j) := by
  rw [auditHeaded, served_add_one]
  by_cases hserved : served 2 j.file.verdicts = true
  · obtain ⟨j₁, hext, hdrop, hpos, hrun⟩ := exec_pair_served hd
      (do if (← fwrite e) ≠ 1 then return 0 else return x) (.ret 0) (.ret 0) hserved
    refine hrun ▸ ?_
    rw [hserved, Bool.true_and, exec_fwrite he, hdrop]
    by_cases hlast : verdict (j.file.verdicts.drop 2) = true
    · rw [if_pos hlast, if_pos hlast]
      have hverdicts : (j₁.wrote e).file.verdicts = j.file.verdicts.drop 3 := by
        rw [← List.tail_drop, ← hdrop]
        rfl
      rw [← hverdicts]
      have hlastExt : j₁.Extends (j₁.wrote e) [(p + d.length, e)] 0 := by
        rw [← hpos]
        exact ⟨rfl, rfl, rfl, rfl⟩
      refine .returned ⟨rfl, rfl, rfl⟩ ?_ ?_
      · exact hext.trans hlastExt
      · exact above_cons.mpr ⟨Nat.le_refl _, above_cons.mpr ⟨Nat.le_add_right _ _, above_nil _⟩⟩
    · rw [if_neg hlast, if_neg hlast]
      exact .noticed (.inl rfl) (hext.trans (Journal.extends_failed _))
        (above_cons.mpr ⟨Nat.le_refl _, above_nil _⟩)
  · obtain ⟨j', hext', -, hrun⟩ := exec_pair_failed hd
      (do if (← fwrite e) ≠ 1 then return 0 else return x) (.ret 0) hserved
    rw [Bool.eq_false_iff.mpr hserved, Bool.false_and, if_neg Bool.false_ne_true]
    exact hrun ▸ .noticed (.inl rfl) hext' (above_nil _)

/-- `WriteDocidDocnameFn`. -/
theorem writeDocidDocnameFn_outcome {kvs : List (HTKeyValue CString)}
    (h : ∀ kv ∈ kvs, FitsLength kv.value) :
    ElementOutcomes writeDocidDocnameFn auditDocName docNameSize kvs := by
  intro kv hkv p j hfit hmallocs
  obtain ⟨hpos, hlt⟩ := h kv hkv
  have hslen : (UInt16.ofNat kv.value.bytes.length).toNat = kv.value.bytes.length :=
    UInt16.toNat_ofNat_of_lt' hlt
  have hheader : (onDisk (⟨kv.key, UInt16.ofNat kv.value.bytes.length⟩ :
    DoctableElementHeader)).length = 10 := length_onDisk _
  rw [writeDocidDocnameFn, auditDocName, hslen, List.take_length]
  refine (headed_outcome (onDisk_ne_nil _) (List.length_pos_iff.mp hpos)).map
    (f := fun t => ⟨10 + kv.value.bytes.length, t.missed, 0⟩) (fun _ => rfl) fun x t ws hw => ?_
  obtain ⟨rfl, rfl, rfl⟩ := hw
  refine ⟨rfl, Nat.le_refl _, ?_, ?_, fun _ => ?_⟩
  · dsimp only
    omega
  · rw [extent_cons, extent_cons, extent_nil, hheader]
    dsimp only
    omega
  · rw [touched_cons, touched_cons, touched_nil, List.append_nil, addresses, addresses, hheader,
      ← List.range'_append_1]

/-- The verdicts of `n + 1` calls. -/
theorem count_false_take_succ (n : ℕ) (s : List Bool) : (s.take (n + 1)).count false =
    (s.tail.take n).count false + if verdict s then 0 else 1 := by
  cases s with
  | nil => simp
  | cons b s => cases b <;> simp [verdict]

/-- Some of `n` positions have been written, from `p` on. -/
structure PositionsWritten (p n missed : ℕ) (ws : Log) : Prop where
  /-- one behind the other -/
  above : Above p ws
  /-- without those that are missing -/
  reach : max p (extent ws) + 4 * missed = p + 4 * n
  /-- all of them, once, if nothing failed -/
  tiles : missed = 0 → (touched ws).Perm (List.range' p (4 * n))

/-- The loop of `WriteDocPositionListFn` goes on when a call fails. -/
theorem writePositions_exec {li : LinkedList UInt64} : ∀ (left done : List (Addr × UInt64))
    (p : Ptr) (j : Journal), Repr li (done ++ left) → ∃ j' ws,
    Calls.exec record (writePositions li left.length ⟨firstAddr left p⟩) j = (.ok (), j') ∧
    j.Extends j' ws ((j.file.verdicts.take left.length).count false) ∧
    j'.file.verdicts = j.file.verdicts.drop left.length ∧
    PositionsWritten j.file.pos left.length ((j.file.verdicts.take left.length).count false) ws
  | [], _, _, j, _ =>
    ⟨j, [], rfl, .refl j, rfl, above_nil _, by simp, fun _ => .refl _⟩
  | (a, payload) :: left, done, p, j, hli => by
    have hcursor := hli
    rw [List.append_cons] at hli
    have hrec : (onDisk (⟨payload.toUInt32⟩ : DocidElementPosition)).length = 4 := length_onDisk _
    rw [List.length_cons, count_false_take_succ, ← List.drop_tail, writePositions, firstAddr,
      llIteratorGetPayload_spec hcursor, Calls.compute_pure, Calls.ret_bind,
      exec_fwrite (onDisk_ne_nil _), llIteratorNext_spec hcursor, Calls.compute_pure]
    by_cases hv : verdict j.file.verdicts = true
    · rw [if_pos hv, if_pos hv, Calls.ret_bind]
      obtain ⟨j', ws, hrun, hext, hverdicts, habove, hreach, htiles⟩ := writePositions_exec left
        (done ++ [(a, payload)]) (some a) (j.wrote (onDisk (⟨payload.toUInt32⟩ :
          DocidElementPosition))) hli
      have hstep : j.Extends (j.wrote (onDisk (⟨payload.toUInt32⟩ : DocidElementPosition)))
          [(j.file.pos, onDisk (⟨payload.toUInt32⟩ : DocidElementPosition))] 0 :=
        ⟨rfl, rfl, rfl, rfl⟩
      have hpos : (j.wrote (onDisk (⟨payload.toUInt32⟩ : DocidElementPosition))).file.pos =
          j.file.pos + 4 := congrArg (j.file.pos + ·) hrec
      rw [hpos] at habove hreach htiles
      have hall := hstep.trans hext
      rw [Nat.zero_add] at hall
      refine ⟨j', _, hrun, hall, hverdicts,
        above_cons.mpr ⟨Nat.le_refl _, habove.mono (Nat.le_add_right _ _)⟩, ?_, fun hmissed => ?_⟩
      · rw [List.singleton_append, extent_cons, hrec]
        rw [Nat.add_zero]
        have hreach' : max (j.file.pos + 4) (extent ws) +
          4 * (j.file.verdicts.tail.take left.length).count false =
            j.file.pos + 4 + 4 * left.length := hreach
        omega
      · rw [List.singleton_append, touched_cons, addresses, hrec,
          show 4 * (left.length + 1) = 4 + 4 * left.length by omega, ← List.range'_append_1]
        exact (htiles hmissed).append_left _
    · rw [if_neg hv, if_neg hv, Calls.ret_bind]
      obtain ⟨j', ws, hrun, hext, hverdicts, habove, hreach, htiles⟩ := writePositions_exec left
        (done ++ [(a, payload)]) (some a) j.failed hli
      have hall := j.extends_failed.trans hext
      rw [Nat.add_comm 1] at hall
      refine ⟨j', _, hrun, hall, hverdicts, habove, ?_, fun hmissed => ?_⟩
      · have hreach' : max j.file.pos (extent ws) +
          4 * (j.file.verdicts.tail.take left.length).count false =
            j.file.pos + 4 * left.length := hreach
        rw [List.nil_append]
        omega
      · omega

/-- `WriteDocPositionListFn`. -/
theorem writeDocPositionListFn_outcome {kvs : List (HTKeyValue (LinkedList UInt64))}
    (h : ∀ kv ∈ kvs, kv.value.WF ∧ kv.value.toList ≠ []) :
    ElementOutcomes writeDocPositionListFn auditPostings postingsSize kvs := by
  intro kv hkv p j hfit hmallocs
  obtain ⟨hwf, hne⟩ := h kv hkv
  have hcells : kv.value.cells ≠ [] := fun h => hne (congrArg (List.map Prod.snd) h)
  have hmake : Yields (llMakeIterator kv.value 0) (some ⟨firstAddr kv.value.cells none⟩) := by
    have hrepr : Repr kv.value kv.value.cells := hwf
    obtain ⟨c, cs, hcons⟩ := List.exists_cons_of_ne_nil hcells
    rw [hcons] at hrepr ⊢
    exact llMakeIterator_yields hrepr
  have hlen : kv.value.cells.length = kv.value.toList.length := (List.length_map ..).symm
  have hheader : (onDisk (⟨kv.key, UInt32.ofNat kv.value.toList.length⟩ :
    DocidElementHeader)).length = 12 := length_onDisk _
  rw [postingsSize] at hfit
  rw [writeDocPositionListFn, auditPostings, numElementsInLinkedList, hwf.numElements_eq,
    u32_of_lt (show 12 + kv.value.toList.length * 4 < 2 ^ 32 by omega)]
  dsimp only
  by_cases hserved : served 2 j.file.verdicts = true
  · obtain ⟨j₁, hext, hverdicts, hpos, hrun₁⟩ := exec_pair_served (onDisk_ne_nil
      (⟨kv.key, UInt32.ofNat kv.value.toList.length⟩ : DocidElementHeader)) _ (.ret 0) (.ret 0)
      hserved
    rw [if_pos hserved]
    refine hrun₁ ▸ ?_
    rw [exec_withMallocs hmake (hext.mallocs.trans hmallocs)]
    obtain ⟨j', ws, hrun, hext', hverdicts', hpositions⟩ := writePositions_exec kv.value.cells []
      none j₁ hwf
    rw [hlen, hverdicts] at hext' hverdicts' hpositions
    rw [hpos, hheader] at hpositions
    rw [List.drop_drop] at hverdicts'
    rw [hlen] at hrun
    rw [Calls.exec_bind_ok hrun, ← hverdicts']
    have hall := hext.trans hext'
    rw [Nat.zero_add] at hall
    have hreach := hpositions.reach
    have hne' := List.length_pos_iff.mpr hne
    refine .returned ⟨?_, Nat.le_refl _, ?_, ?_, fun hmissed => ?_⟩ hall
      (above_cons.mpr ⟨Nat.le_refl _, hpositions.above.mono (Nat.le_add_right _ _)⟩)
    · dsimp only
      omega
    · dsimp only
      omega
    · rw [List.singleton_append, extent_cons, hheader]
      dsimp only
      omega
    · rw [List.singleton_append, touched_cons, addresses, hheader, ← List.range'_append_1]
      exact (hpositions.tiles hmissed).append_left _
  · obtain ⟨j', hext', -, hrun⟩ := exec_pair_failed (onDisk_ne_nil
      (⟨kv.key, UInt32.ofNat kv.value.toList.length⟩ : DocidElementHeader)) _ (.ret 0) hserved
    rw [if_neg hserved]
    exact hrun ▸ .noticed (.inl rfl) hext' (above_nil _)

/-- `WriteWordDocSetFn`. -/
theorem writeWordDocSetFn_outcome {records : Arena WordDocSet} {kvs : List (HTKeyValue Addr)}
    (h : ∀ kv ∈ kvs, ∃ wds, records.read kv.value = some wds ∧ FitsLength wds.word ∧
      wds.docIDs.WF ∧ ∀ e ∈ wds.docIDs.entries, e.value.WF ∧ e.value.toList ≠ []) :
    ElementOutcomes (writeWordDocSetFn records) (auditWord records) (wordSize records) kvs := by
  intro kv hkv p j hfit hmallocs
  obtain ⟨wds, hread, ⟨hpos, hlt⟩, hwf, hlists⟩ := h kv hkv
  have hwordlen : (UInt16.ofNat wds.word.bytes.length).toNat = wds.word.bytes.length :=
    UInt16.toNat_ofNat_of_lt' hlt
  have hverify : decide (0 < UInt16.ofNat wds.word.bytes.length) = true := by
    rw [decide_eq_true_iff, UInt16.lt_iff_toNat_lt, hwordlen]
    exact hpos
  have hsize : wordSize records kv =
      6 + wds.word.bytes.length + tableSize postingsSize wds.docIDs.chains := by
    rw [wordSize, hread]
  rw [hsize] at hfit ⊢
  rw [writeWordDocSetFn, auditWord, hread, deref_some hread, Calls.compute_pure, Calls.ret_bind]
  dsimp only
  rw [hverify, Calls.verify333_true, Calls.ret_bind, hwordlen,
    u32_of_lt (show p + 6 + wds.word.bytes.length < 2 ^ 32 by omega), List.take_length]
  have hfit' : p + 6 + wds.word.bytes.length + tableSize postingsSize wds.docIDs.chains <
    2 ^ 32 := by omega
  have htable := (writeHashTable_outcome hwf (writeDocPositionListFn_outcome hlists) hfit'
    hmallocs).above_mono (show p ≤ p + 6 + wds.word.bytes.length by omega)
  refine htable.unchecked (b := fun t verdicts => (auditHeaded verdicts).map fun p =>
    (⟨6 + wds.word.bytes.length + t.size, t.missed + p.1.missed, t.short⟩, p.2))
    ?_ fun x t j₁ ws ht hext habove => ?_
  · exact .inr rfl
  have hheader : (onDisk (⟨UInt16.ofNat wds.word.bytes.length, UInt32.ofNat x⟩ :
    WorddocsetHeader)).length = 6 := length_onDisk _
  refine (headed_outcome (onDisk_ne_nil _) (List.length_pos_iff.mp hpos)).after
    (f := fun u => ⟨6 + wds.word.bytes.length + t.size, t.missed + u.missed, t.short⟩) hext habove
    (Nat.le_refl _) (fun _ => rfl) fun y u vs hw => ?_
  obtain ⟨rfl, rfl, rfl⟩ := hw
  rw [hheader]
  have htouched : touched [(p, onDisk (⟨UInt16.ofNat wds.word.bytes.length, UInt32.ofNat x⟩ :
      WorddocsetHeader)), (p + 6, wds.word.bytes)] =
      List.range' p (6 + wds.word.bytes.length) := by
    rw [touched_cons, touched_cons, touched_nil, List.append_nil, addresses, addresses, hheader,
      List.range'_append_1]
  rcases ht with ht | ⟨rfl, rfl, rfl⟩
  · have hle := ht.size_le
    have hshort := ht.short_lt
    have hreach := ht.reach
    refine ⟨?_, Nat.add_le_add_left hle _, ?_, ?_, fun hmissed => ?_⟩
    · rw [ht.value, u32_of_lt (by omega)]
    · dsimp only
      omega
    · rw [extent_append, extent_cons, extent_cons, extent_nil, hheader]
      dsimp only
      omega
    · have hrange : List.range' p (6 + wds.word.bytes.length) ++
          List.range' (p + (6 + wds.word.bytes.length)) t.size =
          List.range' p (6 + wds.word.bytes.length + t.size) := List.range'_append_1
      rw [touched_append, htouched]
      dsimp only
      rw [← hrange, ← Nat.add_assoc p]
      exact ((ht.tiles (by dsimp only at hmissed; omega)).append_right _).trans
        List.perm_append_comm
  · refine ⟨?_, Nat.le_add_right _ _, ?_, ?_, fun hmissed => ?_⟩
    · rw [u32_of_lt (by omega)]
    · dsimp only
      omega
    · rw [List.nil_append, extent_cons, extent_cons, extent_nil, hheader]
      dsimp only
      omega
    · dsimp only at hmissed
      omega

/-! ## The file -/

section File

variable {mi : MemIndex} {dt : DocTable} {j : Journal}

/-- `WriteDocTable`. -/
theorem writeDocTable_outcome (h : FitsFormat mi dt) (hmallocs : j.file.mallocs = []) :
    Outcome 16 j Dead (TableWritten 16 (docTableImage dt).length)
      (auditTable auditDocName (dtGetDocidTable dt).chains j.file.verdicts)
      (Calls.exec record (writeDocTable dt 16) j) := by
  have hfit := h.docTable_at.fits
  rw [← docTableImage] at hfit
  rw [length_docTableImage] at hfit ⊢
  exact writeHashTable_outcome h.docs (writeDocidDocnameFn_outcome h.names) hfit hmallocs

/-- `WriteMemIndex`. -/
theorem writeMemIndex_outcome (h : FitsFormat mi dt) {p : ℕ}
    (hp : p ≤ 16 + (docTableImage dt).length) (hmallocs : j.file.mallocs = []) :
    Outcome p j Dead (TableWritten p (indexTableImage mi dt).length)
      (auditTable (auditWord mi.records) mi.table.chains j.file.verdicts)
      (Calls.exec record (writeMemIndex mi p) j) := by
  have hsize := h.size
  rw [length_fileImage] at hsize
  rw [length_indexTableImage] at hsize ⊢
  refine writeHashTable_outcome h.index.records.table
    (writeWordDocSetFn_outcome fun kv hkv => ?_) (by omega) hmallocs
  obtain ⟨set, hread⟩ := Option.isSome_iff_exists.mp (h.index.records.live kv hkv)
  have hget : mi.get? kv.key = some set :=
    (mi.get?_of_mem h.index.records.table hkv).trans hread
  exact ⟨set, hread, h.words _ _ hget, h.index.docIDs _ _ hget, h.index.lists _ _ hget⟩

/-- The loop of `WriteHeader` needs all the bytes. -/
theorem foldFile_exec : ∀ (left : ℕ) (crc : UInt32) (j : Journal), ∃ pos,
    (0 < left → j.file.pos + left ≤ j.file.content.length) ∧ (∃ crc',
      Calls.exec record (foldFile left crc) j =
        (.ok crc', { j with file := { j.file with pos := pos } })) ∨
    j.file.content.length < j.file.pos + left ∧
      Calls.exec record (foldFile left crc) j =
        (.error .verify333, { j with file := { j.file with pos := pos } })
  | 0, crc, j => ⟨j.file.pos, .inl ⟨fun h => absurd h (Nat.lt_irrefl 0), crc, rfl⟩⟩
  | left + 1, crc, j => by
    rcases hbyte : j.file.content[j.file.pos]? with _ | curByte
    · have hlen := List.getElem?_eq_none_iff.mp hbyte
      have hcall : record FileCall.fread j = .ok (none, j) := by rw [record, hbyte]
      exact ⟨j.file.pos, .inr ⟨by omega, Calls.exec_call hcall⟩⟩
    · obtain ⟨hlen, -⟩ := List.getElem?_eq_some_iff.mp hbyte
      have hcall : record FileCall.fread j =
          .ok (some curByte, { j with file := { j.file with pos := j.file.pos + 1 } }) := by
        rw [record, hbyte]
      have hstep : Calls.exec record (foldFile (left + 1) crc) j =
          Calls.exec record (foldFile left (foldByteIntoCRC crc curByte))
            { j with file := { j.file with pos := j.file.pos + 1 } } := Calls.exec_call hcall
      rw [hstep]
      obtain ⟨pos, ⟨hfit, hrun⟩ | ⟨hshort, hrun⟩⟩ := foldFile_exec left
        (foldByteIntoCRC crc curByte) { j with file := { j.file with pos := j.file.pos + 1 } }
      · dsimp only at hfit
        exact ⟨pos, .inl ⟨fun _ => by omega, hrun⟩⟩
      · dsimp only at hshort
        exact ⟨pos, .inr ⟨by omega, hrun⟩⟩

/-- `WriteHeader`: the header is written when all the bytes it is about are there, and none
of its calls fails. -/
theorem writeHeader_exec {d m : ℕ} (hd : 0 < d) (hfit : d + m < 2 ^ 32) :
    (∃ header : IndexFileHeader, header.magicNumber = magicNumber ∧
      16 + d + m ≤ j.file.content.length ∧ served 3 j.file.verdicts = true ∧
      ∃ j', Calls.exec record (writeHeader d m) j = (.ok 16, j') ∧
        j.Extends j' [(0, onDisk header)] 0) ∨
    ∃ r j' n, Calls.exec record (writeHeader d m) j = (r, j') ∧ Refused r ∧ j.Extends j' [] n ∧
      (0 < n ∧ ¬ served 3 j.file.verdicts = true ∨ j.file.content.length < 16 + d + m) := by
  rw [writeHeader, u32_of_lt hfit, exec_fseek]
  dsimp only
  by_cases hseek : verdict j.file.verdicts = true
  · rw [if_pos hseek, if_pos rfl]
    obtain ⟨pos, ⟨hlen, crc, hrun⟩ | ⟨hshort, hrun⟩⟩ := foldFile_exec (d + m) crcInit (j.sought 16)
    · rw [Calls.exec_bind_ok hrun]
      dsimp only
      generalize hj : ({ j.sought 16 with file := { (j.sought 16).file with pos := pos } } :
        Journal) = j₁
      have hext : j.Extends j₁ [] 0 := by
        rw [← hj]
        exact ⟨(List.append_nil _).symm, rfl, rfl, rfl⟩
      have hverdicts : j₁.file.verdicts = j.file.verdicts.tail := by rw [← hj]; rfl
      by_cases hserved : served 2 j₁.file.verdicts = true
      · obtain ⟨j', hext', -, -, hrun'⟩ := exec_pair_served (p := 0) (onDisk_ne_nil
          (⟨magicNumber, getFinalCRC crc, UInt32.ofNat d, UInt32.ofNat m⟩ : IndexFileHeader))
          (do Calls.verify333 (← fsync); return 16) (.ret 0) (.ret 0) hserved
        refine .inl ⟨⟨magicNumber, getFinalCRC crc, UInt32.ofNat d, UInt32.ofNat m⟩, rfl, ?_, ?_,
          j', hrun', hext.trans hext'⟩
        · have hlen' : 16 + (d + m) ≤ j.file.content.length := hlen (by omega)
          omega
        · rw [hverdicts] at hserved
          rw [served, hseek, hserved]
          rfl
      · obtain ⟨j', hext', -, hrun'⟩ := exec_pair_failed (p := 0) (onDisk_ne_nil
          (⟨magicNumber, getFinalCRC crc, UInt32.ofNat d, UInt32.ofNat m⟩ : IndexFileHeader))
          (do Calls.verify333 (← fsync); return 16) (.ret 0) hserved
        refine .inr ⟨_, _, _, hrun', .inl rfl, hext.trans hext', .inl ⟨by omega, fun h => ?_⟩⟩
        rw [served, hseek, Bool.true_and, ← hverdicts] at h
        exact hserved h
    · have hshort' : j.file.content.length < 16 + (d + m) := hshort
      refine .inr ⟨_, _, 0, Calls.exec_bind_error hrun, .inr rfl,
        ⟨(List.append_nil _).symm, rfl, rfl, rfl⟩, .inr (by omega)⟩
  · rw [if_neg hseek]
    refine .inr ⟨_, _, _, rfl, .inl rfl, j.extends_failed, .inl ⟨Nat.one_pos, fun h => ?_⟩⟩
    rw [served, Bool.and_eq_true] at h
    exact hseek h.1

/-- The journal of a file that has just been opened. -/
def opened (f : IndexFile) : Journal where
  file := { f with linked := true, content := [], pos := 0 }
  writes := []
  failures := 0

/-- The file is a replay of the journal, however `WriteIndex` ends. -/
theorem exec_writeIndex_faithful (mi : MemIndex) (dt : DocTable) (f : IndexFile) :
    (Calls.exec record (writeIndex mi dt) (.blank f)).2.Faithful := by
  have hopen : record FileCall.fopen (.blank f) = .ok (true, opened f) := rfl
  have hempty : (opened f).Faithful := ⟨rfl, fun w hw => by cases hw⟩
  have hcall : writeIndex mi dt = .call FileCall.fopen _ := rfl
  rw [hcall, Calls.exec_call hopen]
  exact exec_faithful _ hempty

/-- The end of `WriteIndex`, with the sizes of the tables. -/
def finishIndex (dtres mires : ℕ) : WriterCalls ℕ := do
  let hdres ← writeHeader dtres mires
  if hdres ≠ 16 then
    unlink
    return 0
  else
    return u32 (u32 (dtres + mires) + hdres)

/-- `WriteIndex`, once it has a document table. -/
theorem exec_writeIndex {f : IndexFile} {d : ℕ} {j₁ : Journal}
    (hdoc : Calls.exec record (writeDocTable dt 16) (opened f) = (.ok d, j₁)) (hd : d ≠ 0) :
    Calls.exec record (writeIndex mi dt) (.blank f) =
      Calls.exec record (writeMemIndex mi (u32 (16 + d)) >>= finishIndex d) j₁ := by
  have hopen : record FileCall.fopen (.blank f) = .ok (true, opened f) := rfl
  rw [writeIndex]
  refine (Calls.exec_call hopen).trans ((Calls.exec_bind_ok hdoc).trans ?_)
  simp only [if_neg hd]
  rfl

theorem exec_writeIndex_error {f : IndexFile} {j₁ : Journal} {e : Stop}
    (hdoc : Calls.exec record (writeDocTable dt 16) (opened f) = (.error e, j₁)) :
    Calls.exec record (writeIndex mi dt) (.blank f) = (.error e, j₁) := by
  have hopen : record FileCall.fopen (.blank f) = .ok (true, opened f) := rfl
  rw [writeIndex]
  refine (Calls.exec_call hopen).trans ?_
  change Calls.exec record (writeDocTable dt 16 >>= _) (opened f) = _
  exact Calls.exec_bind_error hdoc

theorem exec_writeIndex_zero {f : IndexFile} {j₁ : Journal}
    (hdoc : Calls.exec record (writeDocTable dt 16) (opened f) = (.ok 0, j₁)) :
    Calls.exec record (writeIndex mi dt) (.blank f) =
      (.ok 0, { j₁ with file := { j₁.file with linked := false } }) := by
  have hopen : record FileCall.fopen (.blank f) = .ok (true, opened f) := rfl
  rw [writeIndex]
  refine (Calls.exec_call hopen).trans ?_
  change Calls.exec record (writeDocTable dt 16 >>= _) (opened f) = _
  exact Calls.exec_bind_ok hdoc

end File

end WriterCalls

end MultithreadedWebServer
