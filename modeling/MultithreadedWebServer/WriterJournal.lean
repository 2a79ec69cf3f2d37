import Mathlib.Data.List.Range
import MultithreadedWebServer.WriterCalls

/-!
# A journal of the writes

`record` is a second meaning of the calls: the file is changed in the same way, and the
writes that took place are written down in order, so that the file is a replay of its
journal (`content_eq_replay`). Here the verdicts of the file are for `fseek` and `fwrite`
alone, the other calls of the C library succeed.

With no failure to come the two meanings agree (`exec_record_quiet`), and a run in which
nothing failed is the run without failures (`exec_record_hush`).
-/

namespace MultithreadedWebServer

/-- Writes, each at an offset. -/
abbrev Log : Type := List (ℕ × List UInt8)

/-- A file and what has been written to it. -/
structure Journal where
  /-- the file; its verdicts are for `fseek` and `fwrite` -/
  file : IndexFile
  /-- the writes since the file was opened -/
  writes : Log
  /-- the number of calls that failed -/
  failures : ℕ
  deriving DecidableEq

namespace Journal

/-- A journal of a closed file. -/
def blank (f : IndexFile) : Journal := ⟨f, [], 0⟩

/-- After a call of `fseek`. -/
def sought (j : Journal) (offset : ℕ) : Journal :=
  { j with file := { j.file with pos := offset, verdicts := j.file.verdicts.tail } }

/-- After a call of `fwrite`. -/
def wrote (j : Journal) (bytes : List UInt8) : Journal where
  file := { j.file with
    content := writeAt j.file.content j.file.pos bytes
    pos := j.file.pos + bytes.length
    verdicts := j.file.verdicts.tail }
  writes := j.writes ++ [(j.file.pos, bytes)]
  failures := j.failures

/-- After a call that failed. -/
def failed (j : Journal) : Journal where
  file := { j.file with verdicts := j.file.verdicts.tail }
  writes := j.writes
  failures := j.failures + 1

/-- A journal of the same file, with no failure to come. -/
def hush (j : Journal) : Journal := { j with file := { j.file with verdicts := [] } }

end Journal

/-- What a call does to a journal. -/
def record : (c : FileCall) → Run Journal c.Answer
  | .fopen, j =>
    .ok (true, ⟨{ j.file with linked := true, content := [], pos := 0 }, [], j.failures⟩)
  | .unlink, j => .ok ((), { j with file := { j.file with linked := false } })
  | .fseek offset, j =>
    if verdict j.file.verdicts then .ok (true, j.sought offset) else .ok (false, j.failed)
  | .fwrite bytes, j =>
    if bytes = [] then .ok (0, j)
    else if verdict j.file.verdicts then .ok (1, j.wrote bytes)
    else .ok (0, j.failed)
  | .fread, j =>
    match j.file.content[j.file.pos]? with
    | none => .ok (none, j)
    | some curByte =>
      .ok (some curByte, { j with file := { j.file with pos := j.file.pos + 1 } })
  | .fsync, j => .ok (true, j)
  | .alloc m, j =>
    match m j.file.mallocs with
    | .error e => .error e
    | .ok (it, mallocs) => .ok (it, { j with file := { j.file with mallocs := mallocs } })

/-! ## Replaying a journal -/

/-- What some writes do to a file. -/
def replay (b : List UInt8) (ws : Log) : List UInt8 :=
  ws.foldl (fun b w => writeAt b w.1 w.2) b

theorem replay_append (b : List UInt8) (ws vs : Log) :
    replay b (ws ++ vs) = replay (replay b ws) vs := List.foldl_append

/-- The file is what its journal says, and no write is empty. -/
structure Journal.Faithful (j : Journal) : Prop where
  /-- the file was empty when it was opened -/
  content : j.file.content = replay [] j.writes
  /-- an empty write is none -/
  nonempty : ∀ w ∈ j.writes, w.2 ≠ []

/-- Every call keeps a faithful journal faithful. -/
theorem record_faithful (c : FileCall) (j : Journal) (y : c.Answer) (j' : Journal)
    (h : j.Faithful) (hc : record c j = .ok (y, j')) : j'.Faithful := by
  cases c with
  | fopen =>
    obtain ⟨-, rfl⟩ := Prod.mk.inj (Except.ok.inj hc)
    exact ⟨rfl, fun w hw => by cases hw⟩
  | unlink =>
    obtain ⟨-, rfl⟩ := Prod.mk.inj (Except.ok.inj hc)
    exact ⟨h.content, h.nonempty⟩
  | fseek offset =>
    rw [record] at hc
    split at hc
    all_goals
      obtain ⟨-, rfl⟩ := Prod.mk.inj (Except.ok.inj hc)
      exact ⟨h.content, h.nonempty⟩
  | fwrite bytes =>
    rw [record] at hc
    split at hc
    · obtain ⟨-, rfl⟩ := Prod.mk.inj (Except.ok.inj hc)
      exact h
    · rename_i hbytes
      split at hc
      · obtain ⟨-, rfl⟩ := Prod.mk.inj (Except.ok.inj hc)
        refine ⟨?_, fun w hw => ?_⟩
        · rw [Journal.wrote, replay_append, ← h.content]
          rfl
        · rcases List.mem_append.mp hw with hw | hw
          · exact h.nonempty w hw
          · obtain rfl := List.mem_singleton.mp hw
            exact hbytes
      · obtain ⟨-, rfl⟩ := Prod.mk.inj (Except.ok.inj hc)
        exact ⟨h.content, h.nonempty⟩
  | fread =>
    rw [record] at hc
    split at hc
    all_goals
      obtain ⟨-, rfl⟩ := Prod.mk.inj (Except.ok.inj hc)
      exact ⟨h.content, h.nonempty⟩
  | fsync =>
    obtain ⟨-, rfl⟩ := Prod.mk.inj (Except.ok.inj hc)
    exact h
  | alloc m =>
    rw [record] at hc
    split at hc
    · cases hc
    · obtain ⟨-, rfl⟩ := Prod.mk.inj (Except.ok.inj hc)
      exact ⟨h.content, h.nonempty⟩

/-- A file is the replay of its journal, also when the process has stopped. -/
theorem exec_faithful {α : Type} (m : WriterCalls α) {j : Journal} (h : j.Faithful) :
    (Calls.exec record m j).2.Faithful :=
  Calls.exec_invariant (fun c j y j' => record_faithful c j y j') m h

/-! ## How far writes reach -/

/-- The addresses that a write touches. -/
def addresses (w : ℕ × List UInt8) : List ℕ := List.range' w.1 w.2.length

/-- Where the last of some writes ends. -/
def extent (ws : Log) : ℕ := ws.foldr (fun w n => max (w.1 + w.2.length) n) 0

@[simp] theorem extent_nil : extent [] = 0 := rfl

@[simp] theorem extent_cons (w : ℕ × List UInt8) (ws : Log) :
    extent (w :: ws) = max (w.1 + w.2.length) (extent ws) := rfl

@[simp] theorem extent_append (ws vs : Log) : extent (ws ++ vs) = max (extent ws) (extent vs) := by
  induction ws with
  | nil => rw [List.nil_append, extent_nil, Nat.zero_max]
  | cons w ws ih => rw [List.cons_append, extent_cons, extent_cons, ih, max_assoc]

/-- A file ends where its writes end. -/
theorem length_replay (b : List UInt8) (ws : Log) (h : ∀ w ∈ ws, w.2 ≠ []) :
    (replay b ws).length = max b.length (extent ws) := by
  induction ws generalizing b with
  | nil => rw [extent_nil, Nat.max_zero]; rfl
  | cons w ws ih =>
    have hrest := ih (writeAt b w.1 w.2) fun v hv => h v (List.mem_cons_of_mem _ hv)
    rw [length_writeAt _ _ (h w List.mem_cons_self), max_assoc] at hrest
    exact hrest

/-- What is in front of all the writes is not touched: it stays, or reads as zero. -/
theorem replay_below {lo : ℕ} (ws : Log) (h : ∀ w ∈ ws, lo ≤ w.1) (b : List UInt8) {i : ℕ}
    (hi : i < lo) : (replay b ws)[i]? = b[i]? ∨ b.length ≤ i ∧ (replay b ws)[i]? = some 0 := by
  induction ws generalizing b with
  | nil => exact .inl rfl
  | cons w ws ih =>
    have hw := h w List.mem_cons_self
    have hrest := ih (fun v hv => h v (List.mem_cons_of_mem _ hv)) (writeAt b w.1 w.2)
    have hreplay : replay b (w :: ws) = replay (writeAt b w.1 w.2) ws := rfl
    rw [hreplay]
    by_cases hd : w.2 = []
    · rw [hd, writeAt_nil] at hrest ⊢
      exact hrest
    · rw [getElem?_writeAt b w.1 hd, if_pos (by omega)] at hrest
      by_cases hb : i < b.length
      · rw [if_pos hb] at hrest
        rcases hrest with hrest | ⟨hlen, -⟩
        · exact .inl hrest
        · rw [length_writeAt b w.1 hd] at hlen
          omega
      · rw [if_neg hb] at hrest
        exact .inr ⟨by omega, by rcases hrest with hrest | ⟨-, hrest⟩ <;> exact hrest⟩

/-! ## The two meanings of a call -/

/-- With no failure to come a journal is the file with its writes. -/
theorem record_quiet (c : FileCall) (j : Journal) (f : IndexFile)
    (h : j.file = f ∧ f.verdicts = []) :
    (∃ e, record c j = .error e ∧ perform c f = .error e) ∨
      ∃ y j' f', record c j = .ok (y, j') ∧ perform c f = .ok (y, f') ∧
        j'.file = f' ∧ f'.verdicts = [] := by
  obtain ⟨⟨linked, content, pos, verdicts, mallocs⟩, writes, failures⟩ := j
  obtain ⟨rfl, hverdicts⟩ := h
  obtain rfl : verdicts = [] := hverdicts
  cases c with
  | fopen => exact .inr ⟨_, _, _, rfl, rfl, rfl, rfl⟩
  | unlink => exact .inr ⟨_, _, _, rfl, rfl, rfl, rfl⟩
  | fseek offset => exact .inr ⟨_, _, _, rfl, rfl, rfl, rfl⟩
  | fwrite bytes =>
    by_cases hbytes : bytes = []
    · subst hbytes
      exact .inr ⟨_, _, _, rfl, rfl, rfl, rfl⟩
    · refine .inr ⟨1, Journal.wrote ⟨⟨linked, content, pos, [], mallocs⟩, writes, failures⟩ bytes,
        _, ?_, ?_, rfl, rfl⟩
      · rw [record, if_neg hbytes]
        rfl
      · rw [perform, fwrite, if_neg hbytes]
        rfl
  | fread =>
    rw [record, perform, freadByte]
    rcases hbyte : content[pos]? with _ | curByte
    · refine .inr ⟨_, _, _, rfl, ?_, rfl, rfl⟩
      rw [Run.bind_apply]
      simp [ioVerdict, Run.bind_apply, hbyte]
    · refine .inr ⟨_, _, _, rfl, ?_, rfl, rfl⟩
      rw [Run.bind_apply]
      simp [ioVerdict, Run.bind_apply, hbyte]
  | fsync => exact .inr ⟨_, _, _, rfl, rfl, rfl, rfl⟩
  | alloc m =>
    rw [record, perform, withMallocs, Run.zoom]
    rcases hm : m mallocs with e | ⟨it, mallocs'⟩
    · exact .inl ⟨e, rfl, rfl⟩
    · exact .inr ⟨_, _, _, rfl, rfl, rfl, rfl⟩

/-- With no failure to come the two meanings of a program agree. -/
theorem exec_record_quiet {α : Type} (m : WriterCalls α) {j : Journal}
    (h : j.file.verdicts = []) :
    (Calls.exec record m j).1 = (Calls.exec perform m j.file).1 ∧
      (Calls.exec record m j).2.file = (Calls.exec perform m j.file).2 := by
  obtain ⟨hresult, hfile⟩ := Calls.exec_simulates record_quiet m (And.intro (Eq.refl j.file) h)
  exact ⟨hresult, hfile.1⟩

/-- With no failure to come a call does not fail. -/
theorem record_failures_quiet (c : FileCall) (j : Journal) (y : c.Answer) (j' : Journal)
    (h : j.file.verdicts = []) (hc : record c j = .ok (y, j')) :
    j'.file.verdicts = [] ∧ j'.failures = j.failures := by
  have hv : verdict j.file.verdicts = true := by rw [h]; rfl
  have htail : j.file.verdicts.tail = [] := by rw [h]; rfl
  cases c with
  | fopen =>
    obtain ⟨-, rfl⟩ := Prod.mk.inj (Except.ok.inj hc)
    exact ⟨h, rfl⟩
  | unlink =>
    obtain ⟨-, rfl⟩ := Prod.mk.inj (Except.ok.inj hc)
    exact ⟨h, rfl⟩
  | fseek offset =>
    rw [record, if_pos hv] at hc
    obtain ⟨-, rfl⟩ := Prod.mk.inj (Except.ok.inj hc)
    exact ⟨htail, rfl⟩
  | fwrite bytes =>
    rw [record, if_pos hv] at hc
    split at hc
    · obtain ⟨-, rfl⟩ := Prod.mk.inj (Except.ok.inj hc)
      exact ⟨h, rfl⟩
    · obtain ⟨-, rfl⟩ := Prod.mk.inj (Except.ok.inj hc)
      exact ⟨htail, rfl⟩
  | fread =>
    rw [record] at hc
    split at hc
    all_goals
      obtain ⟨-, rfl⟩ := Prod.mk.inj (Except.ok.inj hc)
      exact ⟨h, rfl⟩
  | fsync =>
    obtain ⟨-, rfl⟩ := Prod.mk.inj (Except.ok.inj hc)
    exact ⟨h, rfl⟩
  | alloc m =>
    rw [record] at hc
    split at hc
    · cases hc
    · obtain ⟨-, rfl⟩ := Prod.mk.inj (Except.ok.inj hc)
      exact ⟨h, rfl⟩

theorem exec_failures_quiet {α : Type} (m : WriterCalls α) {j : Journal}
    (h : j.file.verdicts = []) : (Calls.exec record m j).2.file.verdicts = [] ∧
      (Calls.exec record m j).2.failures = j.failures := by
  have hstep (c : FileCall) (j₁ : Journal) (y : c.Answer) (j₂ : Journal)
      (hinv : j₁.file.verdicts = [] ∧ j₁.failures = j.failures) (hc : record c j₁ = .ok (y, j₂)) :
      j₂.file.verdicts = [] ∧ j₂.failures = j.failures := by
    obtain ⟨hverdicts, hfailures⟩ := record_failures_quiet c j₁ y j₂ hinv.1 hc
    exact ⟨hverdicts, hfailures.trans hinv.2⟩
  exact Calls.exec_invariant hstep m ⟨h, rfl⟩

/-- A call that did not fail would not fail if there were no failures to come. -/
theorem record_hush (c : FileCall) (j : Journal) :
    (∃ e, record c j = .error e ∧ record c j.hush = .error e) ∨
      ∃ y j', record c j = .ok (y, j') ∧ (j'.failures = j.failures + 1 ∨
        j'.failures = j.failures ∧ record c j.hush = .ok (y, j'.hush)) := by
  cases c with
  | fopen => exact .inr ⟨_, _, rfl, .inr ⟨rfl, rfl⟩⟩
  | unlink => exact .inr ⟨_, _, rfl, .inr ⟨rfl, rfl⟩⟩
  | fseek offset =>
    rw [record, record]
    by_cases hv : verdict j.file.verdicts
    · rw [if_pos hv]
      exact .inr ⟨_, _, rfl, .inr ⟨rfl, rfl⟩⟩
    · rw [if_neg hv]
      exact .inr ⟨_, _, rfl, .inl rfl⟩
  | fwrite bytes =>
    rw [record, record]
    by_cases hbytes : bytes = []
    · rw [if_pos hbytes, if_pos hbytes]
      exact .inr ⟨_, _, rfl, .inr ⟨rfl, rfl⟩⟩
    · rw [if_neg hbytes, if_neg hbytes]
      by_cases hv : verdict j.file.verdicts
      · rw [if_pos hv]
        exact .inr ⟨_, _, rfl, .inr ⟨rfl, rfl⟩⟩
      · rw [if_neg hv]
        exact .inr ⟨_, _, rfl, .inl rfl⟩
  | fread =>
    have hbyte : j.hush.file.content[j.hush.file.pos]? = j.file.content[j.file.pos]? := rfl
    rw [record, record, hbyte]
    rcases j.file.content[j.file.pos]? with _ | curByte
    · exact .inr ⟨_, _, rfl, .inr ⟨rfl, rfl⟩⟩
    · exact .inr ⟨_, _, rfl, .inr ⟨rfl, rfl⟩⟩
  | fsync => exact .inr ⟨_, _, rfl, .inr ⟨rfl, rfl⟩⟩
  | alloc m =>
    have hmallocs : j.hush.file.mallocs = j.file.mallocs := rfl
    rw [record, record, hmallocs]
    rcases m j.file.mallocs with e | ⟨it, mallocs⟩
    · exact .inl ⟨e, rfl, rfl⟩
    · exact .inr ⟨_, _, rfl, .inr ⟨rfl, rfl⟩⟩

/-- The failures are counted. -/
theorem failures_le_exec {α : Type} (m : WriterCalls α) (j : Journal) :
    j.failures ≤ (Calls.exec record m j).2.failures := by
  have hstep (c : FileCall) (j₁ : Journal) (y : c.Answer) (j₂ : Journal)
      (hle : j.failures ≤ j₁.failures) (hc : record c j₁ = .ok (y, j₂)) :
      j.failures ≤ j₂.failures := by
    rcases record_hush c j₁ with ⟨e, he, -⟩ | ⟨y', j', hok, hcount⟩
    · rw [he] at hc
      cases hc
    · rw [hok] at hc
      obtain ⟨-, rfl⟩ := Prod.mk.inj (Except.ok.inj hc)
      omega
  exact Calls.exec_invariant hstep m (Nat.le_refl _)

/-- A program during which nothing failed did what it does when nothing fails. -/
theorem exec_record_hush {α : Type} (m : WriterCalls α) (j : Journal)
    (h : (Calls.exec record m j).2.failures = j.failures) :
    Calls.exec record m j.hush = ((Calls.exec record m j).1, (Calls.exec record m j).2.hush) := by
  induction m generalizing j with
  | ret a => rfl
  | stop e => rfl
  | call c next ih =>
    rcases record_hush c j with ⟨e, hj, hhush⟩ | ⟨y, j', hj, hcount | ⟨hcount, hhush⟩⟩
    · rw [Calls.exec_call_error hj, Calls.exec_call_error hhush]
    · rw [Calls.exec_call hj] at h
      have hle := failures_le_exec (next y) j'
      omega
    · rw [Calls.exec_call hj] at h ⊢
      rw [Calls.exec_call hhush]
      exact ih y j' (h.trans hcount.symm)

end MultithreadedWebServer
