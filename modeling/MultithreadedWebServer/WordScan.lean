import MultithreadedWebServer.FileParser
import MultithreadedWebServer.MaximalRuns

/-!
# What `BuildWordHT` records

The scan of `LoopAndInsert` is `closedRuns isAlpha`: it adds the words of exactly the
maximal runs of letters that have a character behind them (`scanLoop_eq`). Adding is
specified by `Recorded`: the table files under each word the offsets it was added with,
in order.

So nothing is missed as long as the file does not end in a letter. A run that ends with
the file is never added, since the loop reports a word only when it meets the boundary
behind it.
-/

namespace MultithreadedWebServer

/-! ## Reading the file -/

/-- A readable regular file with this content: the `read` calls deliver it in any
pieces, with any number of interruptions. -/
structure FileSource.Holds (file : FileSource) (content : List UInt8) : Prop where
  /-- `stat` works -/
  stats : file.stats = true
  /-- it is a regular file -/
  regular : file.regular = true
  /-- `open` works -/
  opens : file.opens = true
  /-- of that size -/
  size : file.size = content.length
  /-- no read fails or ends the file early -/
  reads : ∀ o ∈ file.reads, o ≠ .fatal ∧ o ≠ .bytes []
  /-- and together they deliver the content -/
  content : delivered file.reads = content

theorem readLoop_delivered : ∀ (outcomes : List ReadOutcome) (buf : List UInt8),
    (∀ o ∈ outcomes, o ≠ .fatal ∧ o ≠ .bytes []) →
    readLoop outcomes (delivered outcomes).length buf = some (buf ++ delivered outcomes)
  | [], buf, _ => by simp [readLoop, delivered]
  | .fatal :: outcomes, buf, h => absurd rfl (h _ List.mem_cons_self).1
  | .retry :: outcomes, buf, h => by
    have ih := readLoop_delivered outcomes buf fun o ho => h o (List.mem_cons_of_mem _ ho)
    by_cases hz : (delivered outcomes).length = 0
    · have hnil := List.length_eq_zero_iff.mp hz
      simp [readLoop, delivered, hnil]
    · simp [readLoop, delivered, hz, ih]
  | .bytes bs :: outcomes, buf, h => by
    have ih := readLoop_delivered outcomes (buf ++ bs) fun o ho =>
      h o (List.mem_cons_of_mem _ ho)
    have hne : bs ≠ [] := fun hnil => (h _ List.mem_cons_self).2 (by rw [hnil])
    have hpos := List.length_pos_iff.mpr hne
    have hz : (delivered (.bytes bs :: outcomes)).length ≠ 0 := by
      rw [delivered, List.length_append]
      omega
    have htake : bs.take (delivered (.bytes bs :: outcomes)).length = bs :=
      List.take_of_length_le (by rw [delivered, List.length_append]; omega)
    have hleft : (delivered (.bytes bs :: outcomes)).length - bs.length =
        (delivered outcomes).length := by
      rw [delivered, List.length_append]
      omega
    simp only [readLoop, hz, if_false, htake, hne, hleft, ih]
    rw [delivered, List.append_assoc]

/-- `ReadFile` returns the content, terminated, if there is memory for it. -/
theorem readFile_spec {file : FileSource} {content : List UInt8} (h : file.Holds content)
    (hlen : content.length < 2 ^ 32) (s : Schedule) :
    readFile file s =
      .ok (if verdict s then some (content ++ [0], content.length) else none, s.tail) := by
  have hloop := readLoop_delivered file.reads [] h.reads
  rw [h.content, List.nil_append, ← h.size] at hloop
  have hset : (content ++ [0]).set content.length 0 = content ++ [0] := by simp
  cases hs : verdict s <;>
    simp [readFile, h.stats, h.regular, h.opens, Run.bind_apply, malloc_apply, hs, hloop,
      u32_of_lt hlen, hset]

theorem readFile_yields {file : FileSource} {content : List UInt8} (h : file.Holds content)
    (hlen : content.length < 2 ^ 32) :
    Yields (readFile file) (some (content ++ [0], content.length)) :=
  readFile_spec h hlen []

/-! ## Words -/

/-- The word of a run of letters. -/
def lowerWord (run : List UInt8) : CString := CString.ofBytes (run.map toLower)

theorem toLower_ne_zero {c : UInt8} (h : isAlpha c = true) : toLower c ≠ 0 := by
  unfold isAlpha at h
  unfold toLower
  grind

/-- A run of letters followed by NUL is a C string, the word of the run. -/
theorem ofBytes_run {run : List UInt8} (h : ∀ c ∈ run, isAlpha c = true) (rest : List UInt8) :
    CString.ofBytes (run.map toLower ++ 0 :: rest) = lowerWord run := by
  have hnz : ∀ c ∈ run.map toLower, decide (c ≠ 0) = true := by
    intro c hc
    obtain ⟨d, hd, rfl⟩ := List.mem_map.mp hc
    exact decide_eq_true (toLower_ne_zero (h d hd))
  rw [CString.mk.injEq]
  change List.takeWhile _ _ = List.takeWhile _ _
  rw [List.takeWhile_append_of_pos hnz, List.takeWhile_eq_self_iff.mpr hnz]
  simp

/-- The word of a run is its letters, lower-cased. -/
theorem lowerWord_bytes {run : List UInt8} (h : ∀ c ∈ run, isAlpha c = true) :
    (lowerWord run).bytes = run.map toLower := by
  refine List.takeWhile_eq_self_iff.mpr fun c hc => ?_
  obtain ⟨d, hd, rfl⟩ := List.mem_map.mp hc
  exact decide_eq_true (toLower_ne_zero (h d hd))

/-! ## Adding words -/

/-- The table records the additions `adds`, offsets with their words: under each key
what was added under it, in order. -/
structure Recorded (tab : WordHT) (adds : List (ℕ × CString)) : Prop where
  /-- the table of records -/
  records : RecordTable.WF tab
  /-- the position lists -/
  lists : ∀ key wp, tab.get? key = some wp → wp.positions.WF
  /-- what is filed under a key is a word that was added under it -/
  word : ∀ key wp, tab.get? key = some wp → key = wordKey wp.word ∧ ∃ a ∈ adds, a.2 = wp.word
  /-- with all offsets that were added under the key -/
  positions : ∀ key wp, tab.get? key = some wp → wp.positions.toList =
    (adds.filter fun a => wordKey a.2 = key).map fun a => UInt64.ofNat (u32 a.1)
  /-- and there is nothing else -/
  keys : tab.keys = (adds.map fun a => wordKey a.2).toFinset

section Adding

variable {tab : WordHT} {adds : List (ℕ × CString)}

/-- What was added under a key, with one more word. -/
theorem filter_append_word (adds : List (ℕ × CString)) (pos : ℕ) (word : CString) (key : UInt64) :
    ((adds ++ [(pos, word)]).filter fun a => wordKey a.2 = key) =
      (adds.filter fun a => wordKey a.2 = key) ++
        if wordKey word = key then [(pos, word)] else [] := by
  rw [List.filter_append, List.filter_singleton]
  by_cases hk : wordKey word = key <;> simp [hk]

/-- The keys with one more word. -/
theorem Recorded.keys_append (h : Recorded tab adds) (pos : ℕ) (word : CString) :
    ((adds ++ [(pos, word)]).map fun a => wordKey a.2).toFinset =
      insert (wordKey word) tab.keys := by
  ext key
  simp [h.keys]

/-- Under the key of a word there is another record now, and nothing else has changed. -/
theorem Recorded.file (h : Recorded tab adds) {tab' : WordHT} {wp : WordPositions} {word : CString}
    {pos : ℕ} (hwf : RecordTable.WF tab')
    (hget : ∀ key, tab'.get? key = if key = wordKey word then some wp else tab.get? key)
    (hkeys : tab'.keys = insert (wordKey word) tab.keys) (hlist : wp.positions.WF)
    (hword : wordKey word = wordKey wp.word ∧ ∃ a ∈ adds ++ [(pos, word)], a.2 = wp.word)
    (hpositions : wp.positions.toList = ((adds.filter fun a => wordKey a.2 = wordKey word).map
      fun a => UInt64.ofNat (u32 a.1)) ++ [UInt64.ofNat (u32 pos)]) :
    Recorded tab' (adds ++ [(pos, word)]) := by
  have hcases : ∀ key w, tab'.get? key = some w →
      key = wordKey word ∧ w = wp ∨ wordKey word ≠ key ∧ tab.get? key = some w := by
    intro key w hw
    rw [hget] at hw
    by_cases hk : key = wordKey word
    · rw [if_pos hk] at hw
      exact .inl ⟨hk, (Option.some.inj hw).symm⟩
    · rw [if_neg hk] at hw
      exact .inr ⟨Ne.symm hk, hw⟩
  refine ⟨hwf, ?_, ?_, ?_, hkeys.trans (h.keys_append pos word).symm⟩
  · intro key w hw
    rcases hcases key w hw with ⟨-, rfl⟩ | ⟨-, hold⟩
    · exact hlist
    · exact h.lists key w hold
  · intro key w hw
    rcases hcases key w hw with ⟨rfl, rfl⟩ | ⟨-, hold⟩
    · exact hword
    · obtain ⟨hkey, b, hb, hbw⟩ := h.word key w hold
      exact ⟨hkey, b, List.mem_append_left _ hb, hbw⟩
  · intro key w hw
    rw [filter_append_word]
    rcases hcases key w hw with ⟨rfl, rfl⟩ | ⟨hk, hold⟩
    · rw [if_pos rfl, List.map_append, hpositions]
      rfl
    · rw [if_neg hk, List.append_nil]
      exact h.positions key w hold

/-- `AddToHashTable` with a word that is there: one more position. -/
theorem Recorded.add_present (h : Recorded tab adds) (hroom : adds.length + 1 < 2 ^ 32)
    {word : CString} {a : Addr} {wp : WordPositions}
    (hrun : Yields (lookupHashTable tab.table (wordKey word)) (1, some ⟨wordKey word, a⟩))
    (hmem : (⟨wordKey word, a⟩ : HTKeyValue Addr) ∈ tab.table.entries)
    (hread : tab.records.read a = some wp) (hget : tab.get? (wordKey word) = some wp) (pos : ℕ) :
    ∃ tab', Yields (addToHashTable tab word pos) tab' ∧
      Recorded tab' (adds ++ [(pos, word)]) := by
  have hrun : lookupHashTable tab.table (wordKey word) [] = _ := hrun
  have hpositions := h.positions _ wp hget
  have hrepr : Repr wp.positions wp.positions.cells := h.lists _ wp hget
  have hlen : wp.positions.cells.length + 1 < 2 ^ 32 := by
    have hpos := congrArg List.length hpositions
    rw [LinkedList.toList, List.length_map, List.length_map] at hpos
    have hle := List.length_filter_le (fun a => decide (wordKey a.2 = wordKey word)) adds
    omega
  obtain ⟨list', hrepr', happ⟩ := appendLinkedList_spec hrepr hlen (UInt64.ofNat (u32 pos))
  have hlist' : list'.toList = wp.positions.toList ++ [UInt64.ofNat (u32 pos)] := by
    rw [hrepr'.toList_eq, List.map_append]
    rfl
  let wp' : WordPositions := { wp with positions := list' }
  obtain ⟨hwf', hget'⟩ := h.records.write hmem wp'
  refine ⟨{ tab with records := tab.records.write a wp' }, ?_, ?_⟩
  · simp [Run.Returns, addToHashTable, Run.bind_apply, hrun, foundValue, deref_some hread,
      happ, store_some _ hread, wp']
  · refine h.file hwf' hget' ?_ hrepr'.wf ?_ ?_
    · refine (Finset.insert_eq_self.mpr (h.records.mem_keys.mpr ?_)).symm
      exact Option.isSome_of_eq_some hget
    · obtain ⟨hkey, b, hb, hbw⟩ := h.word _ wp hget
      exact ⟨hkey, b, List.mem_append_left _ hb, hbw⟩
    · rw [← hpositions]
      exact hlist'

/-- `AddToHashTable` with a new word. -/
theorem Recorded.add_absent (h : Recorded tab adds) (hroom : adds.length + 1 < 2 ^ 32)
    {word : CString} (hrun : Yields (lookupHashTable tab.table (wordKey word)) (0, none))
    (hget : tab.get? (wordKey word) = none) (pos : ℕ) :
    ∃ tab', Yields (addToHashTable tab word pos) tab' ∧
      Recorded tab' (adds ++ [(pos, word)]) := by
  have hrun : lookupHashTable tab.table (wordKey word) [] = _ := hrun
  have hroom' : (insert (wordKey word) tab.keys).card < 2 ^ 32 := by
    rw [← h.keys_append pos word]
    refine Nat.lt_of_le_of_lt (List.toFinset_card_le _) ?_
    rw [List.length_map, List.length_append]
    exact hroom
  have halloc : (allocateLinkedList : Run Schedule (Option (LinkedList UInt64))) [] = _ :=
    allocateLinkedList_yields
  obtain ⟨list', hrepr', happ⟩ := appendLinkedList_spec (repr_empty (α := UInt64)) (by simp)
    (UInt64.ofNat (u32 pos))
  let wp' : WordPositions := ⟨word, list'⟩
  obtain ⟨table, hins, hwf', -, hget', hkeys'⟩ := h.records.insert hget hroom' wp'
  have hins : insertHashTable tab.table ⟨wordKey word, tab.records.fresh⟩ [] = _ := hins
  have hnone : (adds.filter fun a => wordKey a.2 = wordKey word) = [] := by
    refine List.filter_eq_nil_iff.mpr fun b hb hk => ?_
    have hin : wordKey word ∈ tab.keys := by
      rw [h.keys, List.mem_toFinset]
      exact List.mem_map.mpr ⟨b, hb, by simpa using hk⟩
    rw [h.records.mem_keys, hget] at hin
    cases hin
  refine ⟨⟨table, tab.records.alloc wp'⟩, ?_, ?_⟩
  · simp [Run.Returns, addToHashTable, Run.bind_apply, hrun, malloc_apply, halloc, happ, hins,
      wp']
  · refine h.file hwf' hget' hkeys' hrepr'.wf ?_ ?_
    · exact ⟨rfl, (pos, word), List.mem_append_right _ (List.mem_singleton_self _), rfl⟩
    · rw [hnone]
      exact hrepr'.toList_eq

/-- `AddToHashTable` records one more word. -/
theorem Recorded.add (h : Recorded tab adds) (hroom : adds.length + 1 < 2 ^ 32) (word : CString)
    (pos : ℕ) :
    ∃ tab', Yields (addToHashTable tab word pos) tab' ∧
      Recorded tab' (adds ++ [(pos, word)]) := by
  rcases h.records.find (wordKey word) with ⟨a, wp, hrun, hmem, hread, hget⟩ | ⟨hrun, -, hget⟩
  · exact h.add_present hroom hrun hmem hread hget pos
  · exact h.add_absent hroom hrun hget pos

/-- One `AddToHashTable` call after the other. -/
def addWords : List (ℕ × List UInt8) → WordHT → Run Schedule WordHT
  | [], tab => pure tab
  | (s, run) :: runs, tab => do
    let tab ← addToHashTable tab (lowerWord run) s
    addWords runs tab

/-- The additions that a list of runs makes. -/
def additions (runs : List (ℕ × List UInt8)) : List (ℕ × CString) :=
  runs.map fun r => (r.1, lowerWord r.2)

theorem addWords_yields : ∀ (runs : List (ℕ × List UInt8)) {tab : WordHT}
    {adds : List (ℕ × CString)}, Recorded tab adds → adds.length + runs.length < 2 ^ 32 →
    ∃ tab', Yields (addWords runs tab) tab' ∧ Recorded tab' (adds ++ additions runs)
  | [], tab, adds, h, _ => ⟨tab, rfl, by simpa [additions] using h⟩
  | (s, run) :: runs, tab, adds, h, hlen => by
    rw [List.length_cons] at hlen
    obtain ⟨tab₁, hadd, h₁⟩ := h.add (by omega) (lowerWord run) s
    obtain ⟨tab', hrun, h'⟩ := addWords_yields runs h₁
      (by rw [List.length_append, List.length_singleton]; omega)
    exact ⟨tab', hadd.bind hrun, by simpa [additions] using h'⟩

end Adding

/-! ## The scan -/

theorem charAt_of {σ : Type} {content : List UInt8} {p : ℕ} {c : UInt8}
    (h : content[p]? = some c) : (charAt content p : Run σ UInt8) = pure c := by
  rw [charAt, h]

section Scan

variable {fuel : ℕ} {tab : WordHT} {content : List UInt8} {curptr wordstart : ℕ} {parsing : Bool}
  {c : UInt8}

/-- At the terminator the scan is over. -/
theorem scanLoop_end (h : content[curptr]? = some 0) :
    scanLoop (fuel + 1) tab content curptr wordstart parsing = pure tab := by
  rw [scanLoop, charAt_of h, Run.pure_bind, if_pos rfl]

/-- A letter goes on with the open word or starts one. -/
theorem scanLoop_letter (h : content[curptr]? = some c) (hc : c ≠ 0) (hal : isAlpha c = true) :
    scanLoop (fuel + 1) tab content curptr wordstart parsing =
      scanLoop fuel tab (content.set curptr (toLower c)) (curptr + 1)
        (if parsing then wordstart else curptr) true := by
  rw [scanLoop, charAt_of h, Run.pure_bind, if_neg hc, if_neg (fun hb => hb.2 hal), if_pos hal]

/-- A boundary ends the open word and adds it. -/
theorem scanLoop_boundary (h : content[curptr]? = some c) (hc : c ≠ 0) (hal : ¬ isAlpha c = true)
    {word : CString}
    (hword : (cStringAt (content.set curptr 0) wordstart : Run Schedule CString) = pure word) :
    scanLoop (fuel + 1) tab content curptr wordstart true =
      addToHashTable tab word wordstart >>= fun tab =>
        scanLoop fuel tab (content.set curptr 0) (curptr + 1) wordstart false := by
  rw [scanLoop, charAt_of h, Run.pure_bind, if_neg hc, if_pos ⟨rfl, hal⟩]
  dsimp only
  rw [hword, Run.pure_bind]

/-- Between words nothing happens. -/
theorem scanLoop_between (h : content[curptr]? = some c) (hc : c ≠ 0) (hal : ¬ isAlpha c = true) :
    scanLoop (fuel + 1) tab content curptr wordstart false =
      scanLoop fuel tab content (curptr + 1) wordstart false := by
  rw [scanLoop, charAt_of h, Run.pure_bind, if_neg hc, if_neg (fun hb => by cases hb.1),
    if_neg hal]

end Scan

/-- The loop of `LoopAndInsert` adds the words of the closed runs. `front` is the part of
the buffer behind `curptr`, already lower-cased; `acc` is the run that is open; a word
may also be about to start, at the very beginning. -/
theorem scanLoop_eq : ∀ (rest : List UInt8) {fuel : ℕ} {tab : WordHT} {front acc : List UInt8}
    {wordstart : ℕ} {parsing : Bool}, rest.length < fuel → (∀ c ∈ rest, c ≠ 0) →
    (∀ c ∈ acc, isAlpha c = true) → (parsing = false → acc = []) →
    (parsing = true → (∃ before, front = before ++ acc.map toLower ∧ before.length = wordstart) ∧
      (acc = [] → ∀ c ∈ rest.head?, isAlpha c = true)) →
    scanLoop fuel tab (front ++ (rest ++ [0])) front.length wordstart parsing =
      addWords (closedRuns isAlpha front.length acc rest) tab
  | _, 0, _, _, _, _, _, hfuel, _, _, _, _ => absurd hfuel (Nat.not_lt_zero _)
  | [], fuel + 1, tab, front, acc, wordstart, parsing, _, _, _, _, _ => by
    rw [scanLoop_end (by simp)]
    rfl
  | c :: rest, fuel + 1, tab, front, acc, wordstart, parsing, hfuel, hnz, hacc, hclosed, hopen => by
    have hc : (front ++ (c :: rest ++ [0]))[front.length]? = some c := by simp
    have hcnz : c ≠ 0 := hnz c List.mem_cons_self
    have hnz' : ∀ d ∈ rest, d ≠ 0 := fun d hd => hnz d (List.mem_cons_of_mem _ hd)
    have hfuel' : rest.length < fuel := Nat.lt_of_succ_lt_succ hfuel
    have hset : ∀ d : UInt8, (front ++ (c :: rest ++ [0])).set front.length d =
        (front ++ [d]) ++ (rest ++ [0]) := fun d => by simp
    have hpos : ∀ d : UInt8, (front ++ [d]).length = front.length + 1 := fun d => by simp
    have hnone : ∀ d ∈ ([] : List UInt8), isAlpha d = true := fun d hd => absurd hd List.not_mem_nil
    by_cases hal : isAlpha c = true
    · -- a letter
      have hacc' : ∀ d ∈ acc ++ [c], isAlpha d = true := by
        intro d hd
        rcases List.mem_append.mp hd with hd | hd
        · exact hacc d hd
        · rw [List.mem_singleton.mp hd]
          exact hal
      have hstart : ∃ before, front ++ [toLower c] = before ++ (acc ++ [c]).map toLower ∧
          before.length = if parsing then wordstart else front.length := by
        cases parsing with
        | true =>
          obtain ⟨⟨before, hfront, hlen⟩, -⟩ := hopen rfl
          exact ⟨before, by rw [hfront, List.map_append, List.append_assoc]; rfl, hlen⟩
        | false => exact ⟨front, by rw [hclosed rfl]; rfl, rfl⟩
      have ih : scanLoop fuel tab ((front ++ [toLower c]) ++ (rest ++ [0]))
          (front ++ [toLower c]).length (if parsing then wordstart else front.length) true =
            addWords (closedRuns isAlpha (front ++ [toLower c]).length (acc ++ [c]) rest) tab :=
        scanLoop_eq rest hfuel' hnz' hacc' (fun h => by cases h)
          fun _ => ⟨hstart, fun hnil => by simp at hnil⟩
      rw [scanLoop_letter hc hcnz hal, hset, closedRuns, if_pos hal, ← hpos (toLower c), ih]
    · rw [closedRuns, if_neg hal]
      cases parsing with
      | true =>
        -- a boundary: the open run is a word
        obtain ⟨⟨before, hfront, hlen⟩, hstarts⟩ := hopen rfl
        have hne : acc.length ≠ 0 := fun hz =>
          hal (hstarts (List.length_eq_zero_iff.mp hz) c (by simp))
        have hdrop : ((front ++ [0]) ++ (rest ++ [0])).drop wordstart =
            acc.map toLower ++ 0 :: (rest ++ [0]) := by
          rw [hfront, ← hlen]
          simp
        have hword : (cStringAt ((front ++ [0]) ++ (rest ++ [0])) wordstart :
            Run Schedule CString) = pure (lowerWord acc) := by
          rw [cStringAt, hdrop, if_pos (by simp), ofBytes_run hacc]
        have hoff : front.length - acc.length = wordstart := by
          rw [hfront, ← hlen]
          simp
        have ih : ∀ tab, scanLoop fuel tab ((front ++ [0]) ++ (rest ++ [0]))
            (front ++ [0]).length wordstart false =
              addWords (closedRuns isAlpha (front ++ [0]).length [] rest) tab := fun tab =>
          scanLoop_eq rest hfuel' hnz' hnone (fun _ => rfl) fun h => by cases h
        rw [scanLoop_boundary hc hcnz hal (by rw [hset]; exact hword), hset, if_neg hne, hoff,
          ← hpos 0, addWords]
        exact congrArg _ (funext ih)
      | false =>
        have ih : scanLoop fuel tab ((front ++ [c]) ++ (rest ++ [0])) (front ++ [c]).length
            wordstart false = addWords (closedRuns isAlpha (front ++ [c]).length [] rest) tab :=
          scanLoop_eq rest hfuel' hnz' hnone (fun _ => rfl) fun h => by cases h
        have hsame : front ++ (c :: rest ++ [0]) = (front ++ [c]) ++ (rest ++ [0]) := by simp
        rw [scanLoop_between hc hcnz hal, if_pos (by rw [hclosed rfl]; rfl), ← hpos c, hsame, ih]

/-- `LoopAndInsert` adds the words of the closed runs of the content. -/
theorem loopAndInsert_eq {content : List UInt8} (hnz : ∀ c ∈ content, c ≠ 0) (tab : WordHT) :
    loopAndInsert tab (content ++ [0]) = addWords (closedRuns isAlpha 0 [] content) tab := by
  obtain ⟨c, hc⟩ : ∃ c, (content ++ [0])[0]? = some c := by
    rcases content with _ | ⟨c, rest⟩
    · exact ⟨0, rfl⟩
    · exact ⟨c, rfl⟩
  rw [loopAndInsert, charAt_of hc, Run.pure_bind]
  have h : scanLoop ((content ++ [0]).length + 1) tab ([] ++ (content ++ [0]))
      ([] : List UInt8).length 0 (isAlpha c) =
        addWords (closedRuns isAlpha ([] : List UInt8).length [] content) tab := by
    refine scanLoop_eq content (by rw [List.length_append]; omega) hnz
      (fun d hd => absurd hd List.not_mem_nil) (fun _ => rfl) fun hal => ⟨⟨[], rfl, rfl⟩, ?_⟩
    intro _ d hd
    rcases content with _ | ⟨e, rest⟩
    · cases hd
    · rw [List.head?_cons, Option.mem_some_iff] at hd
      rw [List.cons_append, List.getElem?_cons_zero, Option.some.injEq] at hc
      rw [← hd, hc]
      exact hal
  exact h

/-! ## The table of a file -/

/-- A file of ASCII text without NUL, that fits `HWSize_t`. -/
structure PlainText (content : List UInt8) : Prop where
  /-- there is something in it -/
  ne : content ≠ []
  /-- the size fits -/
  fits : content.length < 2 ^ 32
  /-- ASCII, and no NUL -/
  ascii : ∀ c ∈ content, c ≠ 0 ∧ c ≤ 0x7F

section Build

variable {content : List UInt8}

theorem length_closedRuns : ∀ (rest acc : List UInt8) (pos : ℕ),
    (closedRuns isAlpha pos acc rest).length ≤ rest.length
  | [], _, _ => Nat.le_refl _
  | c :: rest, acc, pos => by
    rw [closedRuns, List.length_cons]
    split
    · exact Nat.le_succ_of_le (length_closedRuns rest _ _)
    · split
      · exact Nat.le_succ_of_le (length_closedRuns rest _ _)
      · rw [List.length_cons]
        exact Nat.succ_le_succ (length_closedRuns rest _ _)

/-- A new table records nothing. -/
theorem recorded_fresh : Recorded ⟨HashTable.fresh Addr 64, Arena.empty⟩ [] where
  records := RecordTable.wf_fresh (by decide) (by decide)
  lists := fun key wp hwp => by rw [RecordTable.get?_fresh] at hwp; cases hwp
  word := fun key wp hwp => by rw [RecordTable.get?_fresh] at hwp; cases hwp
  positions := fun key wp hwp => by rw [RecordTable.get?_fresh] at hwp; cases hwp
  keys := RecordTable.keys_fresh 64

/-- `BuildWordHT` records the closed runs, and gives up when there are none. -/
theorem buildWordHT_yields {file : FileSource} (hfile : file.Holds content)
    (htext : PlainText content) :
    ∃ res, Yields (buildWordHT file) res ∧
      match res with
      | none => closedRuns isAlpha 0 [] content = []
      | some tab => closedRuns isAlpha 0 [] content ≠ [] ∧
          Recorded tab (additions (closedRuns isAlpha 0 [] content)) := by
  have hread : readFile file [] = _ := readFile_yields hfile htext.fits
  have hlen : content.length ≠ 0 := fun hz => htext.ne (List.length_eq_zero_iff.mp hz)
  have halloc : allocateHashTable 64 [] = _ := allocateHashTable_yields (V := Addr) (by decide)
  obtain ⟨tab, hadd, h⟩ := addWords_yields (closedRuns isAlpha 0 [] content) recorded_fresh (by
    have hle := length_closedRuns content [] 0
    have hfits := htext.fits
    rw [List.length_nil]
    omega)
  have hloop := loopAndInsert_eq (fun c hc => (htext.ascii c hc).1)
    ⟨HashTable.fresh Addr 64, Arena.empty⟩
  have hadd : addWords _ _ [] = _ := hadd
  have hcard : tab.table.numElements = 0 ↔ closedRuns isAlpha 0 [] content = [] := by
    rw [← h.records.card_keys, h.keys, Finset.card_eq_zero, List.toFinset_eq_empty_iff]
    simp [additions]
  by_cases hz : tab.table.numElements = 0
  · refine ⟨none, ?_, hcard.mp hz⟩
    simp [Run.Returns, buildWordHT, Run.bind_apply, hread, hlen, halloc, hloop, hadd,
      numElementsInHashTable, hz, freeHashTable_spec h.records.table]
  · refine ⟨some tab, ?_, fun hnil => hz (hcard.mpr hnil), by simpa using h⟩
    simp [Run.Returns, buildWordHT, Run.bind_apply, hread, hlen, halloc, hloop, hadd,
      numElementsInHashTable, hz]
    exact htext.ascii

end Build

/-- A file whose content one `read` delivers. -/
def FileSource.ofContent (content : List UInt8) : FileSource :=
  ⟨true, true, content.length, true, [.bytes content]⟩

theorem FileSource.holds_ofContent {content : List UInt8} (hne : content ≠ []) :
    (FileSource.ofContent content).Holds content where
  stats := rfl
  regular := rfl
  opens := rfl
  size := rfl
  reads := fun o ho => by
    rw [ofContent, List.mem_singleton] at ho
    rw [ho]
    exact ⟨by simp, by simpa using hne⟩
  content := by simp [ofContent, delivered]

/-- The content `"a\n"`. -/
def lineA : List UInt8 := [97, 10]

end MultithreadedWebServer
