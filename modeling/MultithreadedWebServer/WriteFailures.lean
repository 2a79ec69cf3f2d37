import MultithreadedWebServer.CommitRecord

/-!
# Failures while an index file is written

`WriteIndex` is meant to leave a complete file or none. It tests the size of the document
table where it should test the size of the index table, it does not test the size of a
nested table, and it does not test what `fwrite` says about a position. So it can return a
size for a file that lacks what these calls were for.
-/

namespace MultithreadedWebServer

/-- A complete index file when no call failed; otherwise no file, or one without the magic
number. -/
structure AllOrNothing (mi : MemIndex) (dt : DocTable) (r : Except Stop ℕ × Journal) : Prop where
  /-- no call failed -/
  all : r.2.failures = 0 → r.1 = .ok (fileImage mi dt).length ∧
    r.2.file.content = fileImage mi dt
  /-- some call failed -/
  nothing : 0 < r.2.failures → r.1 = .ok 0 ∧ r.2.file.linked = false ∨
    r.1 = .error .verify333 ∧ ¬ HasMagic r.2.file.content

/-- Every failure that happens leads to one that is noticed. -/
def NoticesFailures (mi : MemIndex) (dt : DocTable) (verdicts : List Bool) : Prop :=
  ∀ n, unnoticed mi dt verdicts = some n → n = 0

namespace WriterCalls

section File

variable {mi : MemIndex} {dt : DocTable} {f : IndexFile}

/-- How `WriteIndex` ends when it notices a failure. -/
def NoticedEnd (r : Except Stop ℕ × Journal) : Prop :=
  0 < r.2.failures ∧ (r.1 = .ok 0 ∧ r.2.file.linked = false ∨ Dead r.1 ∧ Above 16 r.2.writes)

/-- A file whose tables have been written, and what the audit says about it. -/
structure TablesWritten (j : Journal) (t u : Tally) : Prop where
  /-- the file is as long as its tables, without what is missing at the end -/
  length : j.file.content.length + (t.andThen u).short = 16 + t.size + u.size
  /-- something is missing only after a failure -/
  short : 0 < (t.andThen u).short → 0 < (t.andThen u).missed
  /-- the failures have been counted -/
  failures : j.failures = (t.andThen u).missed
  /-- nothing has been written to the header -/
  above : Above 16 j.writes
  /-- there is a document table -/
  size_pos : 0 < t.size
  /-- the file is not too long -/
  fits : 16 + t.size + u.size < 2 ^ 32

/-- The two tables have been written, each as far as its audit says. -/
theorem tablesWritten_of {j₁ j₂ : Journal} {t u : Tally} {docs index : Log} {n m x y : ℕ}
    (ht : Written 16 n x t docs) (hu : TableWritten (16 + t.size) m y u index)
    (hdoc : (opened f).Extends j₁ docs t.missed) (hindex : j₁.Extends j₂ index u.missed)
    (habove : Above 16 docs) (habove' : Above 16 index) (hj : j₂.Faithful)
    (hfit : 16 + n + m < 2 ^ 32) : TablesWritten j₂ t u := by
  have hwrites : j₂.writes = docs ++ index := by
    rw [hindex.writes, hdoc.writes]
    rfl
  have hlen : j₂.file.content.length = max (extent docs) (extent index) := by
    rw [hj.content, length_replay [] _ hj.nonempty, hwrites, extent_append]
    exact Nat.zero_max _
  have hreach := ht.reach
  have hlt := ht.short_lt
  have hle := ht.size_le
  refine ⟨?_, ?_, ?_, ?_, by omega, ?_⟩
  · rw [hlen, Tally.andThen]
    dsimp only
    rcases hu with hu | ⟨-, rfl, rfl⟩
    · have hreach' := hu.reach
      have hlt' := hu.short_lt
      rw [if_neg (by omega)]
      omega
    · rw [if_pos rfl, extent_nil]
      dsimp only
      omega
  · intro hshort
    rw [Tally.andThen] at hshort ⊢
    dsimp only at hshort ⊢
    rcases hu with hu | ⟨-, rfl, -⟩
    · have hlt' := hu.short_lt
      rw [if_neg (by omega)] at hshort
      refine Nat.pos_of_ne_zero fun hmissed => ?_
      have hzero := hu.short_eq_zero (by omega)
      omega
    · dsimp only
      omega
  · rw [hindex.failures, hdoc.failures, opened, Nat.zero_add]
    rfl
  · rw [hwrites]
    exact above_append.mpr ⟨habove, habove'⟩
  · rcases hu with hu | ⟨-, rfl, -⟩
    · have hle' := hu.size_le
      omega
    · dsimp only
      omega

/-- The end of `WriteIndex` notices missing bytes and the failures of its own calls. -/
theorem finishIndex_outcome {j : Journal} {t u : Tally} (hj : TablesWritten j t u) :
    ((t.andThen u).short = 0 ∧ served 3 j.file.verdicts = true) ∧
      (∃ x j', Calls.exec record (finishIndex t.size u.size) j = (.ok x, j') ∧ x ≠ 0 ∧
        j'.failures = (t.andThen u).missed) ∨
    ¬ ((t.andThen u).short = 0 ∧ served 3 j.file.verdicts = true) ∧
      NoticedEnd (Calls.exec record (finishIndex t.size u.size) j) := by
  have hfits := hj.fits
  have hlength := hj.length
  rw [finishIndex]
  rcases writeHeader_exec (j := j) hj.size_pos (show t.size + u.size < 2 ^ 32 by omega) with
    ⟨header, -, hlen, hserved, j', hrun, hext⟩ | ⟨r, j', n, hrun, hr, hext, hcause⟩
  · refine .inl ⟨⟨by omega, hserved⟩, u32 (u32 (t.size + u.size) + 16), j', ?_, ?_, ?_⟩
    · rw [Calls.exec_bind_ok hrun]
      rfl
    · rw [u32_of_lt (show t.size + u.size < 2 ^ 32 by omega), u32_of_lt (by omega)]
      omega
    · rw [hext.failures, hj.failures, Nat.add_zero]
  · refine .inr ⟨fun hfine => ?_, ?_⟩
    · rcases hcause with ⟨-, hserved⟩ | hshort
      · exact hserved hfine.2
      · have hzero := hfine.1
        omega
    · have hfailures : 0 < j'.failures := by
        rw [hext.failures, hj.failures]
        rcases hcause with ⟨hn, -⟩ | hshort
        · omega
        · have hmissed := hj.short (by omega)
          omega
      rcases hr with rfl | rfl
      · rw [Calls.exec_bind_ok hrun]
        exact ⟨hfailures, .inl ⟨rfl, rfl⟩⟩
      · rw [Calls.exec_bind_error hrun]
        refine ⟨hfailures, .inr ⟨rfl, ?_⟩⟩
        rw [hext.writes, List.append_nil]
        exact hj.above

/-- `WriteIndex` either notices a failure, or returns a size. -/
theorem writeIndex_outcome (h : FitsFormat mi dt) (hmallocs : f.mallocs = []) :
    unnoticed mi dt f.verdicts = none ∧
      NoticedEnd (Calls.exec record (writeIndex mi dt) (.blank f)) ∨
    ∃ n x j, unnoticed mi dt f.verdicts = some n ∧
      Calls.exec record (writeIndex mi dt) (.blank f) = (.ok x, j) ∧ x ≠ 0 ∧ j.failures = n := by
  have hsize := h.size
  rw [length_fileImage] at hsize
  have hverdicts : (opened f).file.verdicts = f.verdicts := rfl
  have hdoc := writeDocTable_outcome (j := opened f) h hmallocs
  generalize hrun : Calls.exec record (writeDocTable dt 16) (opened f) = r at hdoc
  rw [hverdicts] at hdoc
  generalize haudit : auditTable auditDocName (dtGetDocidTable dt).chains f.verdicts = a at hdoc
  cases hdoc with
  | @noticed r j₁ docs n hr hext habove =>
    refine .inl ⟨?_, ?_⟩
    · rw [unnoticed, haudit]
      rfl
    · have hfailures : j₁.failures = 0 + (n + 1) := hext.failures
      have hwrites : j₁.writes = docs := hext.writes
      rw [exec_writeIndex_error (hrun.trans (congrArg (·, j₁) hr))]
      refine ⟨by dsimp only; omega, .inr ⟨rfl, ?_⟩⟩
      rw [hwrites]
      exact habove
  | @returned x t j₁ docs hdocs hext habove =>
    rcases hdocs with hdocs | ⟨rfl, rfl, rfl⟩
    · have hne : t.size ≠ 0 := by
        have hlt := hdocs.short_lt
        omega
      have hle := hdocs.size_le
      obtain rfl := hdocs.value
      have hoffset : u32 (16 + t.size) = 16 + t.size := u32_of_lt (by omega)
      have hindex := writeMemIndex_outcome (j := j₁) (p := 16 + t.size) h (by omega)
        (hext.mallocs.trans hmallocs)
      generalize hrun' : Calls.exec record (writeMemIndex mi (16 + t.size)) j₁ = r at hindex
      generalize haudit' : auditTable (auditWord mi.records) mi.table.chains j₁.file.verdicts = a
        at hindex
      rw [exec_writeIndex hrun hne, hoffset, unnoticed, haudit, Option.bind_some]
      dsimp only
      rw [if_neg hne, haudit']
      cases hindex with
      | @noticed r j₂ index n hr hext' habove' =>
        have hall := hext.trans hext'
        have hfailures : j₂.failures = 0 + (t.missed + (n + 1)) := hall.failures
        have hwrites : j₂.writes = docs ++ index := hall.writes
        rw [Calls.exec_bind_error (hrun'.trans (congrArg (·, j₂) hr))]
        refine .inl ⟨rfl, by dsimp only; omega, .inr ⟨rfl, ?_⟩⟩
        rw [hwrites]
        exact above_append.mpr ⟨habove, habove'.mono (Nat.le_add_right _ _)⟩
      | @returned y u j₂ index hindex hext' habove' =>
        have hy : y = u.size := by
          rcases hindex with hindex | ⟨rfl, rfl, -⟩
          · exact hindex.value
          · rfl
        have hfaithful : j₂.Faithful := by
          have hopened : (opened f).Faithful := ⟨rfl, fun w hw => by cases hw⟩
          have hdocs := exec_faithful (writeDocTable dt 16) hopened
          rw [hrun] at hdocs
          have hall := exec_faithful (writeMemIndex mi (16 + t.size)) hdocs
          rwa [hrun'] at hall
        have htables := tablesWritten_of hdocs hindex hext hext' habove
          (habove'.mono (Nat.le_add_right _ _)) hfaithful (by omega)
        rw [Calls.exec_bind_ok hrun', hy, Option.bind_some]
        dsimp only
        rcases finishIndex_outcome htables with ⟨hfine, x, j', hend, hx, hfailures⟩ | ⟨hfine, hend⟩
        · exact .inr ⟨_, x, j', if_pos hfine, hend, hx, hfailures⟩
        · exact .inl ⟨if_neg hfine, hend⟩
    · -- a document table of size 0
      refine .inl ⟨?_, ?_⟩
      · rw [unnoticed, haudit]
        rfl
      · have hfailures : j₁.failures = 0 + 1 := hext.failures
        rw [exec_writeIndex_zero hrun]
        exact ⟨by dsimp only; omega, .inl ⟨rfl, rfl⟩⟩

end File

end WriterCalls

/-- An index file is written completely or not at all if and only if every failure leads to
one that is noticed. -/
theorem writeIndex_all_or_nothing_iff (mi : MemIndex) (dt : DocTable) (h : FitsFormat mi dt)
    (f : IndexFile) (hmallocs : f.mallocs = []) :
    AllOrNothing mi dt (Calls.exec record (WriterCalls.writeIndex mi dt) (.blank f)) ↔
      NoticesFailures mi dt f.verdicts := by
  have hfaithful := WriterCalls.exec_writeIndex_faithful mi dt f
  rcases WriterCalls.writeIndex_outcome h hmallocs with
    ⟨hnone, hfailures, hend⟩ | ⟨n, x, j, hsome, hrun, hx, hfailures⟩
  · -- a failure is noticed
    refine iff_of_true ⟨fun hzero => absurd hfailures (by omega), fun _ => ?_⟩ fun n hn => ?_
    · rcases hend with hend | ⟨hdead, habove⟩
      · exact .inl hend
      · refine .inr ⟨hdead, ?_⟩
        rw [hfaithful.content]
        exact not_hasMagic_replay habove
    · rw [hnone] at hn
      cases hn
  · rw [hrun]
    constructor
    · intro hall m hm
      rw [hsome] at hm
      obtain rfl := Option.some.inj hm
      refine Nat.eq_zero_of_not_pos fun hpos => ?_
      rcases hall.nothing (by rw [hfailures]; exact hpos) with ⟨hzero, -⟩ | ⟨hdead, -⟩
      · exact hx (Except.ok.inj hzero)
      · cases hdead
    · intro hnotices
      obtain rfl := hnotices n hsome
      refine ⟨fun _ => ?_, fun hpos => absurd hpos (by dsimp only; omega)⟩
      -- nothing failed, so this is the run without failures
      obtain ⟨docSize, indexSize, docs, index, header, j', hj⟩ :=
        writeIndex_writes (f := { f with verdicts := [] }) h rfl hmallocs
      obtain ⟨pos, hfile⟩ := hj.file
      have hcontent : j'.file.content = fileImage mi dt := by rw [hfile]; rfl
      have hquiet := exec_record_hush (WriterCalls.writeIndex mi dt) (.blank f) (by
        rw [hrun]
        exact hfailures)
      have hblank : (Journal.blank f).hush = .blank { f with verdicts := [] } := rfl
      rw [hblank, hj.returns, hrun] at hquiet
      obtain ⟨hresult, hjournal⟩ := Prod.mk.inj hquiet
      have hcontent' : j.file.content = j'.file.content := by rw [hjournal]; rfl
      rw [← hcontent, hcontent']
      exact ⟨hresult.symm, rfl⟩

/-- For the index of three words: the `fseek` to the header of the index table fails, and so does
the next one, which goes back to the document table. -/
def headersFail : List Bool := List.replicate 16 true ++ [false, false]

/-- The second failure is noticed, so that the first one does no harm. -/
theorem writeIndex_all_or_nothing_iff_noticed :
    0 < (Calls.exec record (WriterCalls.writeIndex lettersIndex lettersDocTable)
      (.blank ⟨false, [], 0, headersFail, []⟩)).2.failures ∧
    AllOrNothing lettersIndex lettersDocTable
      (Calls.exec record (WriterCalls.writeIndex lettersIndex lettersDocTable)
        (.blank ⟨false, [], 0, headersFail, []⟩)) := by
  have haudit : unnoticed lettersIndex lettersDocTable headersFail = none := by decide
  constructor
  · rcases WriterCalls.writeIndex_outcome (f := ⟨false, [], 0, headersFail, []⟩)
      fitsFormat_letters rfl with ⟨-, hfailures, -⟩ | ⟨n, x, j, hsome, -⟩
    · exact hfailures
    · rw [haudit] at hsome
      cases hsome
  · refine (writeIndex_all_or_nothing_iff lettersIndex lettersDocTable fitsFormat_letters
      ⟨false, [], 0, headersFail, []⟩ rfl).mpr fun n hn => ?_
    rw [haudit] at hn
    cases hn

/-- When the header of the index table is not written, the size of the file without it is
returned. -/
theorem index_header_failure_unnoticed : ¬ AllOrNothing smallIndex smallDocTable
    (Calls.exec record (WriterCalls.writeIndex smallIndex smallDocTable)
      (.blank ⟨false, [], 0, List.replicate 9 true ++ [false], []⟩)) := by
  intro hall
  have haudit : unnoticed smallIndex smallDocTable (List.replicate 9 true ++ [false]) = some 1 := by
    decide
  rcases WriterCalls.writeIndex_outcome (f := ⟨false, [], 0, List.replicate 9 true ++ [false], []⟩)
    fitsFormat_small rfl with ⟨hnone, -⟩ | ⟨n, x, j, hsome, hrun, hx, hfailures⟩
  · rw [haudit] at hnone
    cases hnone
  · rw [haudit] at hsome
    obtain rfl := Option.some.inj hsome
    rw [hrun] at hall
    rcases hall.nothing (by dsimp only; omega) with ⟨hzero, -⟩ | ⟨hdead, -⟩
    · exact hx (Except.ok.inj hzero)
    · cases hdead

end MultithreadedWebServer
