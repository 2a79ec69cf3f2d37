import MultithreadedWebServer.HttpServer

/-!
# ReadFile with its buffer

`readFile` collects the bytes that `read` delivers. Here they are stored where the source
stores them: in a buffer of `st_size + 1` bytes of any content, at an offset that is computed
from the number of bytes that are still missing. Both are the same as far as the terminating
NUL (`readFile_readFileInto`).

The number of bytes is converted to 32 bits before the NUL is stored there, so the buffer
holds what was read exactly if that are fewer than `2 ^ 32` bytes.
-/

namespace MultithreadedWebServer

/-! ## The buffer -/

/-- Store bytes at an offset; storing outside of the buffer is undefined. -/
def overwrite (buf : List UInt8) (pos : ℕ) (bs : List UInt8) : Run Schedule (List UInt8) :=
  if pos + bs.length ≤ buf.length then
    pure (buf.take pos ++ bs ++ buf.drop (pos + bs.length))
  else
    Run.stop .fault

/-- The read loop of `ReadFile`: the buffer and `left_to_read`, or `none` after a fatal error. -/
def readInto (stSize : ℕ) : List ReadOutcome → List UInt8 → ℕ →
    Run Schedule (Option (List UInt8 × ℕ))
  | [], buf, leftToRead => return some (buf, leftToRead)
  | outcome :: outcomes, buf, leftToRead =>
    if leftToRead = 0 then
      return some (buf, leftToRead)
    else
      match outcome with
      | .fatal => return none
      | .retry => readInto stSize outcomes buf leftToRead
      | .bytes bs =>
        -- `read` delivers at most what was asked for
        let bs := bs.take leftToRead
        if bs = [] then
          return some (buf, leftToRead)
        else do
          let buf ← overwrite buf (stSize - leftToRead) bs
          readInto stSize outcomes buf (leftToRead - bs.length)

/-- What `malloc` hands out: so many bytes, of any content. -/
def mallocBytes (junk : ℕ → UInt8) (n : ℕ) : List UInt8 := (List.range n).map junk

/-- `ReadFile`: the whole buffer, and `*size`. -/
def readFileInto (junk : ℕ → UInt8) (file : FileSource) :
    Run Schedule (Option (List UInt8 × ℕ)) := do
  if !file.stats || !file.regular || !file.opens then
    return none
  else if ← malloc then
    let buf := mallocBytes junk (file.size + 1)
    match ← readInto file.size file.reads buf file.size with
    | none => return none
    | some (buf, leftToRead) =>
      let size := u32 (file.size - leftToRead)
      let buf ← overwrite buf size [0]
      return some (buf, size)
  else
    return none

/-! ## The loop -/

/-- The bytes that `read` delivers up to the end of the file, or to a fatal error. -/
def untilEnd : List ReadOutcome → List UInt8
  | [] => []
  | .fatal :: _ => []
  | .retry :: outcomes => untilEnd outcomes
  | .bytes bs :: outcomes => if bs = [] then [] else bs ++ untilEnd outcomes

/-- The bytes that `read` delivers while `ReadFile` asks for more. -/
def readBytes (file : FileSource) : List UInt8 := (untilEnd file.reads).take file.size

/-- In the middle of a buffer. -/
theorem overwrite_append (got bs rest : List UInt8) (h : bs.length ≤ rest.length) :
    overwrite (got ++ rest) got.length bs = pure (got ++ bs ++ rest.drop bs.length) := by
  have hle : got.length + bs.length ≤ (got ++ rest).length := by
    rw [List.length_append]
    exact Nat.add_le_add_left h _
  rw [overwrite, if_pos hle, List.take_left, List.drop_append, Nat.add_sub_cancel_left,
    List.drop_eq_nil_of_le (Nat.le_add_right _ _), List.nil_append]

/-- The loop stores what it gets behind what it got, as `readLoop` collects it. The invariant
is that `left_to_read` and what is stored make up the size. -/
theorem readInto_spec {stSize : ℕ} : ∀ (outcomes : List ReadOutcome) (got rest : List UInt8)
    (leftToRead : ℕ), rest.length = leftToRead + 1 → got.length + leftToRead = stSize →
    (readInto stSize outcomes (got ++ rest) leftToRead = pure none ∧
        readLoop outcomes leftToRead got = none) ∨
      ∃ more, more = (untilEnd outcomes).take leftToRead ∧
        readInto stSize outcomes (got ++ rest) leftToRead =
          pure (some (got ++ more ++ rest.drop more.length, leftToRead - more.length)) ∧
        readLoop outcomes leftToRead got = some (got ++ more)
  | [], got, rest, leftToRead, _, _ => by
    exact .inr ⟨[], by simp [untilEnd], by simp [readInto], by simp [readLoop]⟩
  | outcome :: outcomes, got, rest, leftToRead, hrest, hsize => by
    by_cases hz : leftToRead = 0
    · exact .inr ⟨[], by simp [hz], by simp [readInto, hz], by simp [readLoop, hz]⟩
    cases outcome with
    | fatal => exact .inl ⟨by simp [readInto, hz], by simp [readLoop, hz]⟩
    | retry =>
      have ih := readInto_spec outcomes got rest leftToRead hrest hsize
      simpa only [readInto, readLoop, untilEnd, hz, if_false] using ih
    | bytes bs =>
      by_cases hbs : bs = []
      · subst hbs
        exact .inr ⟨[], by simp [untilEnd], by simp [readInto, hz], by simp [readLoop, hz]⟩
      have hne : bs.take leftToRead ≠ [] := by
        rw [Ne, List.take_eq_nil_iff]
        exact fun hor => hor.elim hz hbs
      have hle : (bs.take leftToRead).length ≤ leftToRead := List.length_take_le _ _
      have hpos : stSize - leftToRead = got.length := by omega
      have hstore := overwrite_append got (bs.take leftToRead) rest (by omega)
      have hloop : ∀ buf, overwrite (got ++ rest) got.length (bs.take leftToRead) = pure buf →
          readInto stSize (.bytes bs :: outcomes) (got ++ rest) leftToRead =
            readInto stSize outcomes buf (leftToRead - (bs.take leftToRead).length) := by
        intro buf hbuf
        simp only [readInto, hz, hne, if_false, hpos, hbuf, Run.pure_bind]
      have hcollect : readLoop (.bytes bs :: outcomes) leftToRead got =
          readLoop outcomes (leftToRead - (bs.take leftToRead).length)
            (got ++ bs.take leftToRead) := by
        simp only [readLoop, hz, hne, if_false]
      have hsize' : (got ++ bs.take leftToRead).length +
          (leftToRead - (bs.take leftToRead).length) = stSize := by
        rw [List.length_append]
        omega
      have ih := readInto_spec outcomes (got ++ bs.take leftToRead)
        (rest.drop (bs.take leftToRead).length) (leftToRead - (bs.take leftToRead).length)
        (by rw [List.length_drop]; omega) hsize'
      rw [hloop _ hstore, hcollect]
      rcases ih with hnone | ⟨more, hmore, hrun, hread⟩
      · exact .inl hnone
      · refine .inr ⟨bs.take leftToRead ++ more, ?_, ?_, ?_⟩
        · rw [hmore, untilEnd, if_neg hbs, List.take_append, List.length_take]
          congr 2
          omega
        · rw [hrun, List.append_assoc, List.drop_drop, List.length_append, Nat.sub_sub]
          simp
        · rw [hread, List.append_assoc]

/-! ## The call -/

theorem length_readBytes (file : FileSource) :
    (readBytes file).length = min file.size (untilEnd file.reads).length := List.length_take

/-- The buffer before the NUL is stored. -/
def filledBuffer (junk : ℕ → UInt8) (file : FileSource) : List UInt8 :=
  readBytes file ++ (mallocBytes junk (file.size + 1)).drop (readBytes file).length

theorem length_filledBuffer (junk : ℕ → UInt8) (file : FileSource) :
    (filledBuffer junk file).length = file.size + 1 := by
  have hle : (readBytes file).length ≤ file.size := List.length_take_le _ _
  rw [filledBuffer, List.length_append, List.length_drop, mallocBytes, List.length_map,
    List.length_range]
  omega

theorem take_filledBuffer (junk : ℕ → UInt8) (file : FileSource) :
    (filledBuffer junk file).take (readBytes file).length = readBytes file := List.take_left

/-- Storing the NUL. -/
theorem overwrite_nul {buf : List UInt8} {size : ℕ} (h : size < buf.length) :
    overwrite buf size [0] = pure (buf.set size 0) := by
  rw [overwrite, List.length_singleton, if_pos (Nat.succ_le_of_lt h),
    List.set_eq_take_append_cons_drop, if_pos h, List.append_assoc]
  rfl

/-- Both models return nothing, or the same size for what was read. -/
theorem readFileInto_spec (junk : ℕ → UInt8) (file : FileSource) (mallocs : Schedule) :
    (∃ mallocs', (readFileInto junk file).Returns mallocs none mallocs' ∧
        (readFile file).Returns mallocs none mallocs') ∨
      ∃ mallocs', (readFileInto junk file).Returns mallocs
          (some ((filledBuffer junk file).set (u32 (readBytes file).length) 0,
            u32 (readBytes file).length)) mallocs' ∧
        (readFile file).Returns mallocs
          (some ((readBytes file ++ [0]).set (u32 (readBytes file).length) 0,
            u32 (readBytes file).length)) mallocs' := by
  by_cases hopen : (!file.stats || !file.regular || !file.opens) = true
  · refine .inl ⟨mallocs, ?_, ?_⟩
    · rw [readFileInto, if_pos hopen]
      rfl
    · rw [readFile, if_pos hopen]
      rfl
  have hmalloc := malloc_apply mallocs
  cases hv : verdict mallocs with
  | false =>
    rw [hv] at hmalloc
    refine .inl ⟨mallocs.tail, ?_, ?_⟩
    · rw [readFileInto, if_neg hopen, Run.Returns, Run.bind_ok hmalloc]
      rfl
    · rw [readFile, if_neg hopen, Run.Returns, Run.bind_ok hmalloc]
      rfl
  | true =>
    rw [hv] at hmalloc
    rcases readInto_spec file.reads [] (mallocBytes junk (file.size + 1)) file.size
      (by simp [mallocBytes]) (Nat.zero_add _) with ⟨hrun, hread⟩ | ⟨more, hmore, hrun, hread⟩
    · rw [List.nil_append] at hrun
      refine .inl ⟨mallocs.tail, ?_, ?_⟩
      · rw [readFileInto, if_neg hopen, Run.Returns, Run.bind_ok hmalloc]
        simp [hrun]
      · rw [readFile, if_neg hopen, Run.Returns, Run.bind_ok hmalloc]
        simp [hread]
    · rw [List.nil_append] at hrun hread
      obtain rfl : more = readBytes file := hmore
      have hle : (readBytes file).length ≤ file.size := List.length_take_le _ _
      have hleft : file.size - (file.size - (readBytes file).length) = (readBytes file).length := by
        omega
      have hsize : u32 (readBytes file).length < (filledBuffer junk file).length := by
        rw [length_filledBuffer]
        exact Nat.lt_succ_of_le (Nat.le_trans (Nat.mod_le _ _) hle)
      refine .inr ⟨mallocs.tail, ?_, ?_⟩
      · have hnul := overwrite_nul hsize
        rw [filledBuffer] at hnul ⊢
        rw [readFileInto, if_neg hopen, Run.Returns, Run.bind_ok hmalloc]
        simp [hrun, hleft, hnul]
      · rw [readFile, if_neg hopen, Run.Returns, Run.bind_ok hmalloc]
        simp [hread]

/-- The buffer up to the NUL, and its size. -/
def upToNul (res : List UInt8 × ℕ) : List UInt8 × ℕ := (res.1.take (res.2 + 1), res.2)

/-- The callers of `ReadFile` cannot tell the buffer from the bytes that were collected. -/
theorem readFile_readFileInto (junk : ℕ → UInt8) (file : FileSource) (mallocs : Schedule) :
    ∃ res res' mallocs', (readFileInto junk file).Returns mallocs res mallocs' ∧
      (readFile file).Returns mallocs res' mallocs' ∧ res.map upToNul = res'.map upToNul := by
  rcases readFileInto_spec junk file mallocs with
    ⟨mallocs', hinto, hread⟩ | ⟨mallocs', hinto, hread⟩
  · exact ⟨none, none, mallocs', hinto, hread, rfl⟩
  · refine ⟨_, _, mallocs', hinto, hread, ?_⟩
    rw [Option.map_some, Option.map_some, upToNul, upToNul]
    have hle : u32 (readBytes file).length ≤ (readBytes file).length := Nat.mod_le _ _
    congr 2
    -- a NUL at the end replaces whatever is there
    rcases Nat.eq_or_lt_of_le hle with heq | hlt
    · dsimp only
      rw [heq, filledBuffer, List.set_append_right _ _ (Nat.le_refl _),
        List.set_append_right _ _ (Nat.le_refl _), Nat.sub_self, List.take_length_add_append,
        List.take_length_add_append]
      have hpos : 0 < ((mallocBytes junk (file.size + 1)).drop (readBytes file).length).length := by
        have hsize : (readBytes file).length ≤ file.size := List.length_take_le _ _
        rw [List.length_drop, mallocBytes, List.length_map, List.length_range]
        omega
      obtain ⟨c, rest, hrest⟩ := List.exists_cons_of_length_pos hpos
      rw [hrest]
      rfl
    · dsimp only
      rw [filledBuffer, List.set_append_left _ _ hlt, List.set_append_left _ _ hlt,
        List.take_append_of_le_length (by rw [List.length_set]; exact hlt),
        List.take_append_of_le_length (by rw [List.length_set]; exact hlt)]

/-- Only a fatal error ends the loop without a result. -/
theorem readLoop_ne_none : ∀ (outcomes : List ReadOutcome) (leftToRead : ℕ) (got : List UInt8),
    .fatal ∉ outcomes → readLoop outcomes leftToRead got ≠ none
  | [], _, _, _ => by simp [readLoop]
  | outcome :: outcomes, leftToRead, got, h => by
    have ih := fun left got' =>
      readLoop_ne_none outcomes left got' (List.not_mem_of_not_mem_cons h)
    by_cases hz : leftToRead = 0
    · simp [readLoop, hz]
    cases outcome with
    | fatal => exact absurd List.mem_cons_self h
    | retry =>
      rw [readLoop, if_neg hz]
      exact ih _ _
    | bytes bs =>
      rw [readLoop, if_neg hz]
      dsimp only
      split
      · exact Option.some_ne_none _
      · exact ih _ _

/-- Interruptions and short reads do not keep `ReadFile` from returning a buffer. -/
theorem readFileInto_returns (junk : ℕ → UInt8) {file : FileSource} (hstats : file.stats = true)
    (hregular : file.regular = true) (hopens : file.opens = true) (hreads : .fatal ∉ file.reads)
    {mallocs : Schedule} (hv : verdict mallocs = true) :
    ∃ mallocs', (readFileInto junk file).Returns mallocs
      (some ((filledBuffer junk file).set (u32 (readBytes file).length) 0,
        u32 (readBytes file).length)) mallocs' := by
  obtain ⟨got, hgot⟩ := Option.ne_none_iff_exists'.mp (readLoop_ne_none _ file.size [] hreads)
  have hread : readFile file mallocs =
      .ok (some ((got ++ [0]).set (u32 got.length) 0, u32 got.length), mallocs.tail) := by
    simp [readFile, hstats, hregular, hopens, Run.bind_apply, malloc_apply, hv, hgot]
  rcases readFileInto_spec junk file mallocs with ⟨m, -, hnone⟩ | ⟨m, hinto, -⟩
  · obtain ⟨heq, -⟩ := Run.Returns.unique hread hnone
    cases heq
  · exact ⟨m, hinto⟩

/-! ## What is returned -/

/-- The buffer holds the bytes that `read` delivered, in order, as many as `*size` says, and
the NUL directly after them, inside of the allocation. -/
structure HoldsWhatWasRead (file : FileSource) (buf : List UInt8) (size : ℕ) : Prop where
  /-- `*size` counts the bytes -/
  count : size = (readBytes file).length
  /-- the first bytes are these -/
  bytes : buf.take size = readBytes file
  /-- the next one is the NUL -/
  nul : buf[size]? = some 0
  /-- nothing was stored outside -/
  allocation : buf.length = file.size + 1

/-- A buffer that `ReadFile` returns holds what was read exactly if the file, as `stat` saw it
or as it turned out to be, has fewer than `2 ^ 32` bytes. -/
theorem read_exactly_iff {junk : ℕ → UInt8} {file : FileSource} {mallocs mallocs' : Schedule}
    {buf : List UInt8} {size : ℕ}
    (h : (readFileInto junk file).Returns mallocs (some (buf, size)) mallocs') :
    HoldsWhatWasRead file buf size ↔
      (file.size < 2 ^ 32 ∨ (untilEnd file.reads).length < 2 ^ 32) := by
  have hcond : (file.size < 2 ^ 32 ∨ (untilEnd file.reads).length < 2 ^ 32) ↔
      (readBytes file).length < 2 ^ 32 := by
    rw [length_readBytes]
    exact min_lt_iff.symm
  rw [hcond]
  rcases readFileInto_spec junk file mallocs with ⟨m, hinto, -⟩ | ⟨m, hinto, -⟩
  · obtain ⟨heq, -⟩ := Run.Returns.unique h hinto
    cases heq
  · obtain ⟨heq, -⟩ := Run.Returns.unique h hinto
    obtain ⟨rfl, rfl⟩ := Prod.mk.inj (Option.some.inj heq)
    have hlen := length_filledBuffer junk file
    constructor
    · intro hholds
      rw [← hholds.count]
      exact u32_lt _
    · intro hlt
      have hle : (readBytes file).length ≤ file.size := List.length_take_le _ _
      rw [u32_of_lt hlt]
      refine ⟨rfl, ?_, ?_, by rw [List.length_set, hlen]⟩
      · rw [List.take_set_of_le (Nat.le_refl _), take_filledBuffer]
      · exact List.getElem?_set_self (by rw [hlen]; exact Nat.lt_succ_of_le hle)

/-- So does the string that `FileReader::ReadFile` makes of the buffer. -/
theorem fileReader_exactly_iff {fs : FileSystem} {fullfile str : CppString}
    {mallocs mallocs' : Schedule}
    (h : (fileReaderReadFile fs fullfile).Returns mallocs (some str) mallocs') :
    str = readBytes (fs.file (CString.ofBytes fullfile)) ↔
      (readBytes (fs.file (CString.ofBytes fullfile))).length < 2 ^ 32 := by
  obtain ⟨res, m, hread, h⟩ := Run.bind_eq_ok h
  rcases readFileInto_spec (fun _ => 0) (fs.file (CString.ofBytes fullfile)) mallocs with
    ⟨m', -, hfile⟩ | ⟨m', -, hfile⟩
  · obtain ⟨rfl, -⟩ := Run.Returns.unique hread hfile
    cases h
  · obtain ⟨rfl, -⟩ := Run.Returns.unique hread hfile
    obtain ⟨heq, -⟩ := Prod.mk.inj (Except.ok.inj h)
    have hle : u32 (readBytes (fs.file (CString.ofBytes fullfile))).length ≤
        (readBytes (fs.file (CString.ofBytes fullfile))).length := Nat.mod_le _ _
    rw [← Option.some.inj heq, List.take_set_of_le (Nat.le_refl _),
      List.take_append_of_le_length hle, List.take_eq_self_iff]
    exact ⟨fun hall => Nat.lt_of_le_of_lt hall (u32_lt _),
      fun hlt => Nat.le_of_eq (u32_of_lt hlt).symm⟩

/-! ## A file of four equal parts -/

/-- A file of `4 * n` letters, read in four calls. -/
def quarteredFile (n : ℕ) : FileSource where
  stats := true
  regular := true
  size := 4 * n
  opens := true
  reads := List.replicate 4 (.bytes (List.replicate n 97))

theorem length_readBytes_quarteredFile {n : ℕ} (hn : 0 < n) :
    (readBytes (quarteredFile n)).length = 4 * n := by
  have hne : List.replicate n (97 : UInt8) ≠ [] := by
    rw [Ne, List.replicate_eq_nil_iff]
    exact Nat.ne_of_gt hn
  have hall : (untilEnd (quarteredFile n).reads).length = 4 * n := by
    simp only [quarteredFile, List.replicate, untilEnd, if_neg hne]
    simp only [List.length_append, List.length_replicate, List.length_nil]
    omega
  rw [length_readBytes, hall]
  exact Nat.min_self _

theorem quarteredFile_returns (n : ℕ) : ∃ mallocs',
    (readFileInto (fun _ => 0) (quarteredFile n)).Returns []
      (some ((filledBuffer (fun _ => 0) (quarteredFile n)).set
        (u32 (readBytes (quarteredFile n)).length) 0, u32 (readBytes (quarteredFile n)).length))
      mallocs' :=
  readFileInto_returns _ rfl rfl rfl (fun hmem => by
    have heq := List.eq_of_mem_replicate hmem
    cases heq) rfl

/-- A file of 8 bytes. -/
theorem read_exactly_iff_small : ∃ buf mallocs',
    (readFileInto (fun _ => 0) (quarteredFile 2)).Returns [] (some (buf, 8)) mallocs' ∧
      HoldsWhatWasRead (quarteredFile 2) buf 8 := by
  obtain ⟨mallocs', hrun⟩ := quarteredFile_returns 2
  have hsize : u32 (readBytes (quarteredFile 2)).length = 8 := by
    rw [length_readBytes_quarteredFile (Nat.succ_pos 1)]
    rfl
  rw [hsize] at hrun
  exact ⟨_, mallocs', hrun, (read_exactly_iff hrun).mpr (.inl (by decide))⟩

/-- A file of `2 ^ 32` bytes is returned as an empty one. -/
theorem four_gibibytes_lost : ∃ buf mallocs',
    (readFileInto (fun _ => 0) (quarteredFile (2 ^ 30))).Returns [] (some (buf, 0)) mallocs' ∧
      ¬ HoldsWhatWasRead (quarteredFile (2 ^ 30)) buf 0 := by
  obtain ⟨mallocs', hrun⟩ := quarteredFile_returns (2 ^ 30)
  have hlen := length_readBytes_quarteredFile (n := 2 ^ 30) (Nat.two_pow_pos 30)
  have hsize : u32 (readBytes (quarteredFile (2 ^ 30))).length = 0 := by
    rw [hlen]
    rfl
  rw [hsize] at hrun
  refine ⟨_, mallocs', hrun, fun hholds => ?_⟩
  have hcount := hholds.count
  rw [hlen] at hcount
  cases hcount

end MultithreadedWebServer
