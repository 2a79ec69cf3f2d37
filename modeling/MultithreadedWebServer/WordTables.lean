import MultithreadedWebServer.WordScan

/-!
# BuildWordHT on any file

Whatever the operating system says about a file, and whatever is in it, `BuildWordHT`
returns: nothing, or a table in which every word is filed under its own hash, with a
non-empty list of positions. The scan stops at the terminator that `ReadFile` put there,
and it adds at most one word a character.
-/

namespace MultithreadedWebServer

/-- A table of words: each is filed under its hash, with its positions. -/
structure WordHT.Sound (tab : WordHT) : Prop where
  /-- the table of records -/
  records : RecordTable.WF tab
  /-- the words -/
  word : ∀ key wp, tab.get? key = some wp → key = wordKey wp.word
  /-- their positions -/
  lists : ∀ key wp, tab.get? key = some wp → wp.positions.WF ∧ wp.positions.toList ≠ []

section Sound

variable {tab : WordHT} {adds : List (ℕ × CString)}

/-- Additions make a table of words. -/
theorem Recorded.sound (h : Recorded tab adds) : tab.Sound where
  records := h.records
  word := fun key wp hwp => (h.word key wp hwp).1
  lists := fun key wp hwp => by
    refine ⟨h.lists key wp hwp, ?_⟩
    obtain ⟨hkey, a, ha, hword⟩ := h.word key wp hwp
    have hmem : a ∈ adds.filter fun a => wordKey a.2 = key := by
      rw [List.mem_filter, hword, hkey]
      exact ⟨ha, decide_eq_true rfl⟩
    rw [h.positions key wp hwp]
    exact List.ne_nil_of_mem (List.mem_map_of_mem hmem)

/-- The loop of `LoopAndInsert` stops at the terminator, at the latest. -/
theorem scanLoop_records {size : ℕ} (hsize : size < 2 ^ 32) : ∀ (fuel : ℕ) {tab : WordHT}
    {adds : List (ℕ × CString)} {content : List UInt8} {curptr wordstart : ℕ} {parsing : Bool},
    Recorded tab adds → adds.length ≤ curptr → content[size]? = some 0 → curptr ≤ size →
    size < curptr + fuel → (parsing = true → wordstart ≤ curptr) →
    ∃ tab' adds', Yields (scanLoop fuel tab content curptr wordstart parsing) tab' ∧
      Recorded tab' adds'
  | 0, _, _, _, _, _, _, _, _, _, hcur, hfuel, _ => absurd hcur (by omega)
  | fuel + 1, tab, adds, content, curptr, wordstart, parsing, h, hadds, hend, hcur, hfuel,
      hstart => by
    have hlt := (List.getElem?_eq_some_iff.mp hend).1
    obtain ⟨c, hc⟩ : ∃ c, content[curptr]? = some c :=
      ⟨content[curptr], List.getElem?_eq_getElem (by omega)⟩
    by_cases hz : c = 0
    · rw [hz] at hc
      rw [scanLoop_end hc]
      exact ⟨tab, adds, rfl, h⟩
    · -- the terminator is still to come
      have hne : curptr ≠ size := by
        rintro rfl
        exact hz (Option.some.inj (hc.symm.trans hend))
      have hset : ∀ d : UInt8, (content.set curptr d)[size]? = some 0 := fun d => by
        rw [List.getElem?_set_ne hne, hend]
      by_cases hal : isAlpha c = true
      · rw [scanLoop_letter hc hz hal]
        refine scanLoop_records hsize fuel h (by omega) (hset _) (by omega) (by omega) fun _ => ?_
        cases parsing with
        | true =>
          have hle := hstart rfl
          rw [if_pos rfl]
          omega
        | false =>
          rw [if_neg Bool.false_ne_true]
          omega
      · cases parsing with
        | false =>
          rw [scanLoop_between hc hz hal]
          exact scanLoop_records hsize fuel h (by omega) hend (by omega) (by omega) nofun
        | true =>
          have hle := hstart rfl
          have hnul : (0 : UInt8) ∈ (content.set curptr 0).drop wordstart := by
            rw [List.mem_drop_iff_getElem]
            refine ⟨curptr - wordstart, ?_, ?_⟩
            · rw [List.length_set]
              omega
            · have hidx : wordstart + (curptr - wordstart) = curptr := by omega
              simp only [hidx, List.getElem_set_self]
          have hword : (cStringAt (content.set curptr 0) wordstart : Run Schedule CString) =
              pure (CString.ofBytes ((content.set curptr 0).drop wordstart)) := if_pos hnul
          obtain ⟨tab₁, hadd, h₁⟩ := h.add (by omega)
            (CString.ofBytes ((content.set curptr 0).drop wordstart)) wordstart
          have hcount : (adds ++
              [(wordstart, CString.ofBytes ((content.set curptr 0).drop wordstart))]).length ≤
                curptr + 1 := by
            rw [List.length_append, List.length_singleton]
            omega
          have hrest : ∃ tab' adds', Yields (scanLoop fuel tab₁ (content.set curptr 0) (curptr + 1)
              wordstart false) tab' ∧ Recorded tab' adds' :=
            scanLoop_records hsize fuel h₁ hcount (hset 0) (by omega) (by omega) nofun
          obtain ⟨tab', adds', hloop, h'⟩ := hrest
          rw [scanLoop_boundary hc hz hal hword]
          exact ⟨tab', adds', hadd.bind hloop, h'⟩

end Sound

/-- `ReadFile` returns nothing, or a buffer that ends where it says. -/
theorem readFile_terminated (file : FileSource) : ∃ res, Yields (readFile file) res ∧
    ∀ content size, res = some (content, size) → content[size]? = some 0 ∧ size < 2 ^ 32 := by
  by_cases hopen : (!file.stats || !file.regular || !file.opens) = true
  · refine ⟨none, ?_, nofun⟩
    rw [readFile, if_pos hopen]
    rfl
  · cases hloop : readLoop file.reads file.size [] with
    | none =>
      refine ⟨none, ?_, nofun⟩
      rw [readFile, if_neg hopen, hloop]
      exact malloc_returns.bind rfl
    | some buf =>
      refine ⟨some ((buf ++ [0]).set (u32 buf.length) 0, u32 buf.length), ?_, ?_⟩
      · rw [readFile, if_neg hopen, hloop]
        exact malloc_returns.bind rfl
      · rintro content size hres
        obtain ⟨rfl, rfl⟩ := Prod.mk.inj (Option.some.inj hres)
        have hle : u32 buf.length ≤ buf.length := Nat.mod_le _ _
        refine ⟨List.getElem?_set_self ?_, u32_lt _⟩
        rw [List.length_append, List.length_singleton]
        omega

/-- `BuildWordHT` returns, with a table of words or without. -/
theorem buildWordHT_sound (file : FileSource) :
    ∃ res, Yields (buildWordHT file) res ∧ ∀ tab, res = some tab → tab.Sound := by
  obtain ⟨res, hread, hends⟩ := readFile_terminated file
  cases res with
  | none => exact ⟨none, hread.bind rfl, nofun⟩
  | some res =>
    obtain ⟨content, size⟩ := res
    obtain ⟨hend, hsize⟩ := hends content size rfl
    by_cases hempty : size = 0
    · exact ⟨none, hread.bind (by dsimp only; rw [if_pos hempty]; rfl), nofun⟩
    by_cases hascii : ((content.take size).any fun c => c = 0 || 0x7F < c) = true
    · exact ⟨none, hread.bind (by dsimp only; rw [if_neg hempty, if_pos hascii]; rfl), nofun⟩
    have hlt := (List.getElem?_eq_some_iff.mp hend).1
    have hfirst : content[0]? = some content[0] := List.getElem?_eq_getElem (by omega)
    have halloc : Yields (allocateHashTable 64) (some (HashTable.fresh Addr 64)) :=
      allocateHashTable_yields (by decide)
    obtain ⟨tab, adds, hloop, h⟩ := scanLoop_records hsize (content.length + 1) recorded_fresh
      (Nat.zero_le 0) hend (Nat.zero_le size) (by omega) fun _ => Nat.zero_le 0
    have hscan : Yields (loopAndInsert ⟨HashTable.fresh Addr 64, Arena.empty⟩ content) tab := by
      rw [loopAndInsert, charAt_of hfirst]
      exact hloop
    have hrest : ∀ {res}, Yields (if numElementsInHashTable tab.table = 0 then
        (freeHashTable tab.table >>= fun _ => pure none) else pure (some tab)) res →
        Yields (buildWordHT file) res := fun h =>
      hread.bind (by
        dsimp only
        rw [if_neg hempty, if_neg hascii]
        exact halloc.bind (hscan.bind h))
    by_cases hz : numElementsInHashTable tab.table = 0
    · refine ⟨none, hrest ?_, nofun⟩
      rw [if_pos hz, freeHashTable_spec h.records.table]
      rfl
    · refine ⟨some tab, hrest ?_, fun tab' htab => ?_⟩
      · rw [if_neg hz]
        rfl
      · rw [← Option.some.inj htab]
        exact h.sound

end MultithreadedWebServer
