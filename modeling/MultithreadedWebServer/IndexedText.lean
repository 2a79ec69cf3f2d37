import MultithreadedWebServer.ByteStrings
import MultithreadedWebServer.CrawlRuns

/-!
# How often a word occurs in a text

The meaning of a search in terms of the texts that were indexed. A text counts if it is ASCII
without NUL; its words are the maximal runs of letters that something follows, lower-cased.
`Counts` ties the table of words of a file to these numbers.
-/

namespace MultithreadedWebServer

/-- The text that a file gives to the indexer: what it holds, or nothing if it cannot be read. -/
inductive Supplies (file : FileSource) : List UInt8 → Prop where
  /-- it is read to its end -/
  | held {text : List UInt8} (h : file.Holds text) (hfits : text.length < 2 ^ 32) :
    Supplies file text
  /-- `ReadFile` returns `NULL` -/
  | unreadable (h : Yields (readFile file) none) : Supplies file []

/-- The runs of letters of a text that are indexed. -/
def indexedRuns (text : List UInt8) : List (ℕ × List UInt8) :=
  if text.all fun c => c ≠ 0 && c ≤ 0x7F then closedRuns isAlpha 0 [] text else []

/-- How often a word occurs in a text. -/
def occurrences (text : List UInt8) (word : CppString) : ℕ :=
  ((indexedRuns text).filter fun r => r.2.map toLower = word).length

/-- The words of a text. -/
def textWords (text : List UInt8) : List CString := (indexedRuns text).map fun r => lowerWord r.2

section Text

variable {text : List UInt8} {file : FileSource}

theorem all_ascii_iff :
    (text.all fun c => c ≠ 0 && c ≤ 0x7F) = true ↔ ∀ c ∈ text, c ≠ 0 ∧ c ≤ 0x7F := by
  simp only [List.all_eq_true, Bool.and_eq_true, decide_eq_true_eq]

theorem isAlpha_of_indexed {r : ℕ × List UInt8} (h : r ∈ indexedRuns text) :
    r.2 ≠ [] ∧ ∀ c ∈ r.2, isAlpha c = true := by
  rw [indexedRuns] at h
  split at h
  · obtain ⟨post, -, hrun⟩ := mem_closedRuns_iff.mp h
    exact ⟨hrun.ne, hrun.all⟩
  · cases h

/-- A run that is indexed under a word has the bytes of the word. -/
theorem lowerWord_eq_iff {r : ℕ × List UInt8} (h : r ∈ indexedRuns text) {word : CString} :
    lowerWord r.2 = word ↔ r.2.map toLower = word.bytes := by
  rw [← lowerWord_bytes (isAlpha_of_indexed h).2]
  exact ⟨fun heq => congrArg CString.bytes heq, CString.ext⟩

theorem occurrences_pos_iff {word : CString} :
    0 < occurrences text word.bytes ↔ word ∈ textWords text := by
  rw [occurrences, List.length_pos_iff_exists_mem, textWords, List.mem_map]
  constructor
  · rintro ⟨r, hr⟩
    obtain ⟨hr, hword⟩ := List.mem_filter.mp hr
    exact ⟨r, hr, (lowerWord_eq_iff hr).mpr (of_decide_eq_true hword)⟩
  · rintro ⟨r, hr, hword⟩
    exact ⟨r, List.mem_filter.mpr ⟨hr, decide_eq_true ((lowerWord_eq_iff hr).mp hword)⟩⟩

/-- The words of a text have bytes that are no NUL, so nothing else occurs. -/
theorem exists_of_occurrences_pos {word : CppString} (h : 0 < occurrences text word) :
    ∃ w ∈ textWords text, w.bytes = word := by
  rw [occurrences, List.length_pos_iff_exists_mem] at h
  obtain ⟨r, hr⟩ := h
  obtain ⟨hr, hword⟩ := List.mem_filter.mp hr
  refine ⟨lowerWord r.2, List.mem_map_of_mem hr, ?_⟩
  rw [lowerWord_bytes (isAlpha_of_indexed hr).2]
  exact of_decide_eq_true hword

/-- The words of a text are not empty. -/
theorem textWords_ne {word : CString} (h : word ∈ textWords text) : 0 < word.bytes.length := by
  obtain ⟨r, hr, rfl⟩ := List.mem_map.mp h
  obtain ⟨hne, halpha⟩ := isAlpha_of_indexed hr
  rw [lowerWord_bytes halpha, List.length_map]
  exact List.length_pos_iff.mpr hne

/-! ## The table of a file -/

/-- Nothing is indexed of an empty text. -/
theorem indexedRuns_nil : indexedRuns [] = [] := by
  rw [indexedRuns, if_pos List.all_nil, closedRuns]

/-- The table of words of a file, if there is one, records the runs of its text. -/
theorem wordTable_supplies (h : Supplies file text) :
    match wordTable file with
    | none => indexedRuns text = []
    | some tab => Recorded tab (additions (indexedRuns text)) := by
  cases h with
  | unreadable h =>
    have hbuild : Yields (buildWordHT file) none := h.bind rfl
    rw [buildWordHT_yields_iff.mp hbuild]
    exact indexedRuns_nil
  | held h hfits =>
    by_cases hascii : ∀ c ∈ text, c ≠ 0 ∧ c ≤ 0x7F
    · by_cases hne : text = []
      · subst hne
        have hbuild : Yields (buildWordHT file) none := (readFile_yields h hfits).bind rfl
        rw [buildWordHT_yields_iff.mp hbuild]
        exact indexedRuns_nil
      · obtain ⟨res, hbuild, hres⟩ := buildWordHT_yields h ⟨hne, hfits, hascii⟩
        rw [buildWordHT_yields_iff.mp hbuild, indexedRuns, if_pos (all_ascii_iff.mpr hascii)]
        cases res with
        | none => exact hres
        | some tab => exact hres.2
    · have hbad : ((text ++ [0]).take text.length).any (fun c => c = 0 || 0x7F < c) = true := by
        rw [List.take_left]
        push Not at hascii
        obtain ⟨c, hc, hbad⟩ := hascii
        refine List.any_eq_true.mpr ⟨c, hc, ?_⟩
        by_cases hzero : c = 0
        · simp [hzero]
        · simpa [hzero] using hbad hzero
      have hlen : text.length ≠ 0 := by
        rintro hzero
        rw [List.length_eq_zero_iff.mp hzero] at hascii
        exact hascii fun c hc => absurd hc List.not_mem_nil
      have hbuild : Yields (buildWordHT file) none := by
        refine (readFile_yields h hfits).bind ?_
        dsimp only
        rw [if_neg hlen, if_pos hbad]
        rfl
      rw [buildWordHT_yields_iff.mp hbuild, indexedRuns, if_neg (mt all_ascii_iff.mp hascii)]

/-- What the table of a file says of a word. -/
structure Counts (tab : WordHT) (text : List UInt8) : Prop where
  /-- the words of the text are filed -/
  filed : ∀ word, word ∈ textWords text ↔ ∃ positions, tab.Maps word positions
  /-- with as many positions as they occur -/
  length : ∀ word positions, tab.Maps word positions →
    positions.toList.length = occurrences text word.bytes

theorem mem_additions {a : ℕ × CString} {runs : List (ℕ × List UInt8)} (h : a ∈ additions runs) :
    a.2 ∈ runs.map fun r => lowerWord r.2 := by
  obtain ⟨r, hr, rfl⟩ := List.mem_map.mp h
  exact List.mem_map_of_mem hr

/-- Where the hashes tell the words of a text apart, its table counts them. -/
theorem Recorded.counts {tab : WordHT} (h : Recorded tab (additions (indexedRuns text)))
    (hapart : HashesApart (textWords text)) : Counts tab text where
  filed := fun word => by
    constructor
    · intro hword
      obtain ⟨r, hr, hlower⟩ := List.mem_map.mp hword
      have hkey : wordKey word ∈ tab.keys := by
        rw [h.keys, List.mem_toFinset, List.mem_map]
        exact ⟨(r.1, lowerWord r.2), List.mem_map_of_mem hr, by rw [hlower]⟩
      obtain ⟨wp, hget⟩ := Option.isSome_iff_exists.mp (h.records.mem_keys.mp hkey)
      obtain ⟨hsame, a, ha, hstored⟩ := h.word _ wp hget
      refine ⟨wp.positions, wp, hget, ?_, rfl⟩
      have hmem := mem_additions ha
      rw [hstored] at hmem
      exact (hapart word hword _ hmem hsame).symm
    · rintro ⟨positions, wp, hget, rfl, -⟩
      obtain ⟨-, a, ha, hstored⟩ := h.word _ wp hget
      rw [← hstored]
      exact mem_additions ha
  length := fun word positions hmaps => by
    obtain ⟨wp, hget, rfl, rfl⟩ := hmaps
    obtain ⟨-, a, ha, hstored⟩ := h.word _ wp hget
    have hword := mem_additions ha
    rw [hstored] at hword
    rw [h.positions _ wp hget, List.length_map, additions, List.filter_map, List.length_map,
      occurrences]
    refine congrArg List.length (List.filter_congr fun r hr => ?_)
    rw [Function.comp_apply, decide_eq_decide, ← lowerWord_eq_iff hr]
    exact ⟨hapart _ (List.mem_map_of_mem hr) _ hword, fun heq => by rw [heq]⟩

end Text

end MultithreadedWebServer
