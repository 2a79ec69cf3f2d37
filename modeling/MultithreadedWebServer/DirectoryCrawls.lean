import MultithreadedWebServer.FileCrawler
import MultithreadedWebServer.RankedSearch
import MultithreadedWebServer.WordScan

/-!
# filecrawler.c: the directories

`HandleDir` reads a directory to its end, hands the regular files to `HandleFile` and goes
into the subdirectories. A directory is what `readdir` returns for it, in this order, with
what `stat` and `opendir` make of each entry. The functions that `HandleDir` calls are a
parameter: with the ones of the program the crawl builds the tables, with ones that record
their calls it says which files are handled.
-/

namespace MultithreadedWebServer

mutual

/-- An entry of a directory as `stat` sees it. -/
inductive Inode where
  /-- a regular file -/
  | regular (file : FileSource)
  /-- a directory, and whether `opendir` succeeds on it -/
  | directory (opens : Bool) (entries : Listing)
  /-- neither, or `stat` fails -/
  | other

/-- What the coming calls of `readdir` return. -/
inductive Listing where
  /-- the end of the directory -/
  | eof
  /-- the next entry, under its `d_name` -/
  | next (name : CString) (inode : Inode) (rest : Listing)

end

/-- A call of `HandleFile`: the path and the file that is there. -/
abbrev HandleCall : Type := CString × FileSource

/-- `"."` and `".."`. -/
def isDots (name : CString) : Bool := name.bytes = [46] ∨ name.bytes = [46, 46]

/-- The path `newfile`: a `'/'` comes between unless `dirpath` ends in one. -/
def newfilePath (dirpath name : CString) : CString where
  bytes :=
    if dirpath.bytes.getLast? = some 47 then dirpath.bytes ++ name.bytes
    else dirpath.bytes ++ 47 :: name.bytes
  noNul := by
    have hdirpath := dirpath.noNul
    have hname := name.noNul
    split <;> simp [hdirpath, hname]

/-- What `CrawlFileTree` and `HandleDir` call. -/
structure Callees (m : Type → Type) where
  /-- `malloc`, for a path -/
  malloc : m Bool
  /-- `AllocateDocTable` and `AllocateMemIndex` -/
  allocateTables : m PUnit
  /-- `HandleFile` -/
  handleFile : CString → FileSource → m PUnit
  /-- `fprintf` of a path that has just been freed -/
  printFreed : m PUnit
  /-- `closedir`: whether it returns 0 -/
  closedir : m Bool
  /-- `Verify333` -/
  verify333 : Bool → m PUnit

section Crawl

variable {m : Type → Type} [Monad m] (callees : Callees m)

/-- `HandleDir`. -/
def handleDir (dirpath : CString) : Listing → m PUnit
  | .eof => return ⟨⟩
  | .next name inode rest => do
    if isDots name then
      handleDir dirpath rest
    else
      callees.verify333 (← callees.malloc)
      let newfile := newfilePath dirpath name
      match inode with
      | .regular file =>
        callees.handleFile newfile file
        handleDir dirpath rest
      | .directory false _ =>
        -- the message has the path, but the path is freed before it
        callees.printFreed
      | .directory true entries =>
        handleDir newfile entries
        callees.verify333 (← callees.closedir)
        handleDir dirpath rest
      | .other => handleDir dirpath rest

/-- `CrawlFileTree`, where `rootdir` names this node. -/
def crawlFileTree (rootdir : CString) : Inode → m Bool
  | .directory true entries => do
    callees.allocateTables
    handleDir callees rootdir entries
    callees.verify333 (← callees.closedir)
    return true
  | _ => return false

end Crawl

/-! ## What is done -/

/-- Something that `HandleDir` does besides going on. -/
inductive DirAction where
  /-- a call of `HandleFile` -/
  | handle (call : HandleCall)
  /-- the message about a directory that cannot be opened -/
  | report

/-- What `HandleDir` does, in order, when nothing fails but `opendir`. -/
def dirActions (dirpath : CString) : Listing → List DirAction
  | .eof => []
  | .next name inode rest =>
    if isDots name then
      dirActions dirpath rest
    else
      match inode with
      | .regular file => .handle (newfilePath dirpath name, file) :: dirActions dirpath rest
      -- after the message `HandleDir` returns: nothing of `rest`
      | .directory false _ => [.report]
      | .directory true entries =>
        dirActions (newfilePath dirpath name) entries ++ dirActions dirpath rest
      | .other => dirActions dirpath rest

/-- The regular files all of whose directories can be opened, with their paths. -/
def readableFiles (dirpath : CString) : Listing → List HandleCall
  | .eof => []
  | .next name inode rest =>
    if isDots name then
      readableFiles dirpath rest
    else
      match inode with
      | .regular file => (newfilePath dirpath name, file) :: readableFiles dirpath rest
      | .directory false _ => readableFiles dirpath rest
      | .directory true entries =>
        readableFiles (newfilePath dirpath name) entries ++ readableFiles dirpath rest
      | .other => readableFiles dirpath rest

/-- The crawl comes to a directory that cannot be opened. -/
def reachesClosed : Listing → Bool
  | .eof => false
  | .next name inode rest =>
    if isDots name then
      reachesClosed rest
    else
      match inode with
      | .regular _ => reachesClosed rest
      | .directory false _ => true
      | .directory true entries => reachesClosed entries || reachesClosed rest
      | .other => reachesClosed rest

/-- A readable file comes too late: after a directory that cannot be opened, in the same listing,
or, when the crawl does not survive its messages, anywhere. -/
def hidesFile (survives : Bool) (dirpath : CString) : Listing → Bool
  | .eof => false
  | .next name inode rest =>
    if isDots name then
      hidesFile survives dirpath rest
    else
      match inode with
      | .regular _ => hidesFile survives dirpath rest
      | .directory false _ => !(readableFiles dirpath rest).isEmpty
      | .directory true entries =>
        hidesFile survives (newfilePath dirpath name) entries || hidesFile survives dirpath rest ||
          (!survives && reachesClosed entries && !(readableFiles dirpath rest).isEmpty)
      | .other => hidesFile survives dirpath rest

section Actions

variable {m : Type → Type} [Monad m] {callees : Callees m}

/-- The call that an action makes. -/
def Callees.act (callees : Callees m) : DirAction → m PUnit
  | .handle call => callees.handleFile call.1 call.2
  | .report => callees.printFreed

/-- Memory does not run out, and what has been opened can be closed. -/
structure Callees.Sound (callees : Callees m) : Prop where
  /-- `malloc` -/
  malloc : callees.malloc = pure true
  /-- `closedir` -/
  closedir : callees.closedir = pure true
  /-- a check that holds -/
  verify333 : callees.verify333 true = pure ⟨⟩

theorem dirActions_dots {dirpath name : CString} (h : isDots name = true) (inode : Inode)
    (rest : Listing) : dirActions dirpath (.next name inode rest) = dirActions dirpath rest := by
  cases inode with
  | regular file => rw [dirActions, if_pos h]
  | directory opens entries =>
    cases opens with
    | false => rw [dirActions, if_pos h]
    | true => rw [dirActions, if_pos h]
  | other => rw [dirActions, if_pos h]

/-- `HandleDir` makes its actions one after the other. -/
theorem handleDir_dirActions [LawfulMonad m] (h : callees.Sound) :
    ∀ (dirpath : CString) (l : Listing),
      handleDir callees dirpath l = (dirActions dirpath l).forM callees.act
  | _, .eof => rfl
  | dirpath, .next name inode rest => by
    have ih := handleDir_dirActions h dirpath rest
    rw [handleDir, h.malloc, pure_bind, h.verify333, pure_bind]
    by_cases hdots : isDots name = true
    · rw [if_pos hdots, dirActions_dots hdots, ih]
    · rw [if_neg hdots]
      match inode with
      | .regular file =>
        dsimp only
        rw [ih, dirActions, if_neg hdots]
        rfl
      | .directory false entries =>
        rw [dirActions, if_neg hdots]
        exact (bind_pure _).symm
      | .directory true entries =>
        dsimp only
        rw [handleDir_dirActions h _ entries, h.closedir, pure_bind, h.verify333, pure_bind, ih,
          dirActions, if_neg hdots, List.forM_eq_forM, List.forM_append]
      | .other =>
        rw [dirActions, if_neg hdots]
        exact ih

/-- So does `CrawlFileTree`, between making the tables and closing the directory. -/
theorem crawlFileTree_dirActions [LawfulMonad m] (h : callees.Sound) (rootdir : CString)
    (entries : Listing) :
    crawlFileTree callees rootdir (.directory true entries) = do
      callees.allocateTables
      (dirActions rootdir entries).forM callees.act
      return true := by
  rw [crawlFileTree, handleDir_dirActions h, h.closedir]
  simp only [pure_bind, h.verify333]

end Actions

/-! ## Which files are handled -/

/-- The calls of `HandleFile` made so far, and whether the crawl was stopped. -/
abbrev Traced : Type → Type := ExceptT Stop (StateM (List HandleCall))

/-- Functions that record the calls of `HandleFile` and never fail. What becomes of a message
printed out of freed memory is not defined by the language, and left open here. -/
def recording (printFreed : Except Stop PUnit) : Callees Traced where
  malloc := pure true
  allocateTables := pure ⟨⟩
  handleFile newfile file := modify fun calls => calls ++ [(newfile, file)]
  printFreed := ExceptT.mk (pure printFreed)
  closedir := pure true
  verify333 exp := if exp then pure ⟨⟩ else throw .verify333

/-- The calls of `HandleFile` that a crawl makes. -/
def handledFiles (printFreed : Except Stop PUnit) (rootdir : CString) (root : Inode) :
    List HandleCall :=
  ((crawlFileTree (recording printFreed) rootdir root).run.run []).2

/-- The calls among the actions; the first message is the last action, unless the crawl survives
its messages. -/
def callsOf (survives : Bool) : List DirAction → List HandleCall
  | [] => []
  | .handle call :: acts => call :: callsOf survives acts
  | .report :: acts => if survives then callsOf survives acts else []

section Recording

theorem recording_sound (printFreed : Except Stop PUnit) : (recording printFreed).Sound where
  malloc := rfl
  closedir := rfl
  verify333 := rfl

/-- What is recorded of some actions. -/
theorem recording_forM (printFreed : Except Stop PUnit) (acts : List DirAction)
    (calls : List HandleCall) :
    ((acts.forM (recording printFreed).act).run.run calls).2 =
      calls ++ callsOf printFreed.isOk acts := by
  induction acts generalizing calls with
  | nil => exact (List.append_nil calls).symm
  | cons act acts ih =>
    cases act with
    | handle call =>
      rw [callsOf, List.append_cons]
      exact ih _
    | report =>
      cases printFreed with
      | ok =>
        exact ih calls
      | error e => exact (List.append_nil calls).symm

/-- A value that is returned at the end leaves no record. -/
theorem recorded_bind_pure {α β : Type} (x : Traced α) (b : β) (calls : List HandleCall) :
    ((x >>= fun _ => pure b).run.run calls).2 = (x.run.run calls).2 := by
  rw [ExceptT.run_bind, StateT.run_bind]
  rcases x.run.run calls with ⟨e | a, calls'⟩
  · rfl
  · rfl

theorem handledFiles_dirActions (printFreed : Except Stop PUnit) (rootdir : CString)
    (entries : Listing) : handledFiles printFreed rootdir (.directory true entries) =
      callsOf printFreed.isOk (dirActions rootdir entries) := by
  rw [handledFiles, crawlFileTree_dirActions (recording_sound printFreed)]
  have hrecorded := recorded_bind_pure
    ((dirActions rootdir entries).forM (recording printFreed).act) true []
  exact hrecorded.trans (recording_forM printFreed (dirActions rootdir entries) [])

end Recording

/-! ## The tables -/

/-- Keep the tables that a run returns in the state. -/
def storeTables (m : Run Schedule (DocTable × MemIndex)) :
    Run (Schedule × DocTable × MemIndex) PUnit := fun s =>
  (m s.1).map fun r => (⟨⟩, r.2, r.1)

/-- The functions of the program, where memory for a path can always be had. -/
def indexing (printFreed : Except Stop PUnit) : Callees (Run (Schedule × DocTable × MemIndex)) where
  malloc := pure true
  allocateTables := storeTables do
    let doctable ← allocateDocTable
    let index ← allocateMemIndex
    return (doctable, index)
  handleFile newfile file := fun s => storeTables (handleFile newfile file s.2.1 s.2.2) s
  printFreed := Run.lift printFreed
  closedir := pure true
  verify333 := Run.verify333

section Indexing

theorem storeTables_ok {m : Run Schedule (DocTable × MemIndex)} {s s' : Schedule}
    {tables tables' : DocTable × MemIndex} (h : m s = .ok (tables', s')) :
    storeTables m (s, tables) = .ok (⟨⟩, s', tables') := by
  rw [storeTables, h]
  rfl

theorem storeTables_error {m : Run Schedule (DocTable × MemIndex)} {s : Schedule} {e : Stop}
    {tables : DocTable × MemIndex} (h : m s = .error e) :
    storeTables m (s, tables) = .error e := by
  rw [storeTables, h]
  rfl

theorem indexing_sound (printFreed : Except Stop PUnit) : (indexing printFreed).Sound where
  malloc := rfl
  closedir := rfl
  verify333 := rfl

/-- What the actions make of the tables, if the program survives its messages. -/
theorem indexing_forM (acts : List DirAction) (s : Schedule) (doctable : DocTable)
    (index : MemIndex) :
    (acts.forM (indexing (.ok ⟨⟩)).act) (s, doctable, index) =
      storeTables (handleFiles (callsOf true acts) doctable index) (s, doctable, index) := by
  induction acts generalizing s doctable index with
  | nil => rfl
  | cons act acts ih =>
    cases act with
    | handle call =>
      rw [callsOf, handleFiles, List.forM_eq_forM, List.forM_cons]
      rcases hcall : handleFile call.1 call.2 doctable index s with e | ⟨⟨doctable', index'⟩, s'⟩
      · rw [storeTables_error (Run.bind_error hcall)]
        exact Run.bind_error (storeTables_error hcall)
      · have hact : (indexing (.ok ⟨⟩)).act (.handle call) (s, doctable, index) =
            .ok (⟨⟩, s', doctable', index') := storeTables_ok hcall
        rw [Run.bind_ok hact, storeTables, Run.bind_ok hcall]
        exact ih s' doctable' index'
    | report => exact ih s doctable index

/-- `CrawlFileTree` makes the tables of the files that it handles. -/
theorem crawlFileTree_crawl (rootdir : CString) (entries : Listing)
    (s : Schedule × DocTable × MemIndex) :
    crawlFileTree (indexing (.ok ⟨⟩)) rootdir (.directory true entries) s =
      (crawl (handledFiles (.ok ⟨⟩) rootdir (.directory true entries)) s.1).map
        fun r => (true, r.2, r.1) := by
  have := Run.lawful (Schedule × DocTable × MemIndex)
  obtain ⟨s, tables⟩ := s
  rw [crawlFileTree_dirActions (indexing_sound (.ok ⟨⟩)), handledFiles_dirActions, crawl]
  rcases hdocs : allocateDocTable s with e | ⟨doctable, s₁⟩
  · have hallocate : (indexing (.ok ⟨⟩)).allocateTables (s, tables) = .error e :=
      storeTables_error (Run.bind_error hdocs)
    rw [Run.bind_error hdocs, Run.bind_error hallocate]
    rfl
  rw [Run.bind_ok hdocs]
  rcases hindex : allocateMemIndex s₁ with e | ⟨index, s₂⟩
  · have hallocate : (indexing (.ok ⟨⟩)).allocateTables (s, tables) = .error e :=
      storeTables_error ((Run.bind_ok hdocs).trans (Run.bind_error hindex))
    rw [Run.bind_error hindex, Run.bind_error hallocate]
    rfl
  have hallocate : (indexing (.ok ⟨⟩)).allocateTables (s, tables) =
      .ok (⟨⟩, s₂, doctable, index) :=
    storeTables_ok ((Run.bind_ok hdocs).trans (Run.bind_ok hindex))
  rw [Run.bind_ok hindex, Run.bind_ok hallocate]
  have hactions := indexing_forM (dirActions rootdir entries) s₂ doctable index
  dsimp only [Except.isOk, Except.toBool]
  rcases hfiles : handleFiles (callsOf true (dirActions rootdir entries)) doctable index s₂ with
    e | ⟨tables', s₃⟩
  · rw [storeTables_error hfiles] at hactions
    rw [Run.bind_error hactions]
    rfl
  · rw [storeTables_ok hfiles] at hactions
    rw [Run.bind_ok hactions]
    rfl

end Indexing

/-! ## Nothing is hidden -/

section Hidden

variable {survives : Bool}

/-- Whether an action is a message. -/
def DirAction.isReport : DirAction → Bool
  | .handle _ => false
  | .report => true

theorem callsOf_append (acts more : List DirAction) :
    callsOf survives (acts ++ more) = callsOf survives acts ++
      if survives || !acts.any DirAction.isReport then callsOf survives more else [] := by
  induction acts with
  | nil => simp [callsOf]
  | cons act acts ih =>
    cases act with
    | handle call => simpa [callsOf, DirAction.isReport] using ih
    | report =>
      cases survives with
      | false => simp [callsOf, DirAction.isReport]
      | true => simpa [callsOf, DirAction.isReport] using ih

/-- Two parts make up the whole only if each of them is complete. -/
theorem append_eq_append_iff_of_sublist {α : Type} {xs xs' ys ys' : List α} (hx : xs.Sublist xs')
    (hy : ys.Sublist ys') : xs ++ ys = xs' ++ ys' ↔ xs = xs' ∧ ys = ys' := by
  constructor
  · intro h
    have hlen := congrArg List.length h
    rw [List.length_append, List.length_append] at hlen
    have hx' := hx.length_le
    have hy' := hy.length_le
    exact ⟨hx.eq_of_length (by omega), hy.eq_of_length (by omega)⟩
  · rintro ⟨rfl, rfl⟩
    rfl

theorem ite_nil_sublist {α : Type} {xs ys : List α} {c : Prop} [Decidable c]
    (h : xs.Sublist ys) : (if c then xs else []).Sublist ys := by
  split
  · exact h
  · exact List.nil_sublist ys

/-- The messages. -/
theorem any_isReport_dirActions : ∀ (dirpath : CString) (l : Listing),
    (dirActions dirpath l).any DirAction.isReport = reachesClosed l
  | _, .eof => rfl
  | dirpath, .next name inode rest => by
    have ih := any_isReport_dirActions dirpath rest
    match inode with
    | .regular file =>
      rw [dirActions, reachesClosed]
      split
      · exact ih
      · exact ih
    | .directory false entries =>
      rw [dirActions, reachesClosed]
      split
      · exact ih
      · rfl
    | .directory true entries =>
      rw [dirActions, reachesClosed]
      split
      · exact ih
      · rw [List.any_append, any_isReport_dirActions _ entries, ih]
    | .other =>
      rw [dirActions, reachesClosed]
      split
      · exact ih
      · exact ih

/-- No file is handled that is not readable, and none twice. -/
theorem callsOf_dirActions_sublist : ∀ (dirpath : CString) (l : Listing),
    (callsOf survives (dirActions dirpath l)).Sublist (readableFiles dirpath l)
  | _, .eof => List.Sublist.slnil
  | dirpath, .next name inode rest => by
    have ih := callsOf_dirActions_sublist dirpath rest
    match inode with
    | .regular file =>
      rw [dirActions, readableFiles]
      split
      · exact ih
      · exact ih.cons_cons _
    | .directory false entries =>
      rw [dirActions, readableFiles]
      split
      · exact ih
      · cases survives with
        | false => exact List.nil_sublist _
        | true => exact List.nil_sublist _
    | .directory true entries =>
      rw [dirActions, readableFiles]
      split
      · exact ih
      · rw [callsOf_append]
        exact (callsOf_dirActions_sublist _ entries).append (ite_nil_sublist ih)
    | .other =>
      rw [dirActions, readableFiles]
      split
      · exact ih
      · exact ih

/-- Where there is no readable file none comes too late. -/
theorem hidesFile_of_nil {dirpath : CString} {l : Listing} (hnil : readableFiles dirpath l = [])
    (h : callsOf survives (dirActions dirpath l) = readableFiles dirpath l ↔
      hidesFile survives dirpath l = false) : hidesFile survives dirpath l = false := by
  have hsub : (callsOf survives (dirActions dirpath l)).Sublist (readableFiles dirpath l) :=
    callsOf_dirActions_sublist dirpath l
  rw [hnil] at hsub
  exact h.mp ((List.sublist_nil.mp hsub).trans hnil.symm)

/-- All of them are handled exactly if none comes too late. -/
theorem callsOf_dirActions_eq_iff : ∀ (dirpath : CString) (l : Listing),
    callsOf survives (dirActions dirpath l) = readableFiles dirpath l ↔
      hidesFile survives dirpath l = false
  | _, .eof => iff_of_true rfl rfl
  | dirpath, .next name inode rest => by
    have ih := callsOf_dirActions_eq_iff dirpath rest
    match inode with
    | .regular file =>
      rw [dirActions, readableFiles, hidesFile]
      split
      · exact ih
      · rw [callsOf, List.cons.injEq, ih]
        exact and_iff_right rfl
    | .directory false entries =>
      rw [dirActions, readableFiles, hidesFile]
      split
      · exact ih
      · have hnil : callsOf survives [DirAction.report] = [] := by
          cases survives <;> rfl
        rw [hnil, Bool.not_eq_false', List.isEmpty_iff, eq_comm]
    | .directory true entries =>
      rw [dirActions, readableFiles, hidesFile]
      split
      · exact ih
      · have hentries : (callsOf survives (dirActions (newfilePath dirpath name) entries)).Sublist
            (readableFiles (newfilePath dirpath name) entries) :=
          callsOf_dirActions_sublist _ entries
        rw [callsOf_append, any_isReport_dirActions, append_eq_append_iff_of_sublist hentries
          (ite_nil_sublist (callsOf_dirActions_sublist dirpath rest)),
          callsOf_dirActions_eq_iff _ entries, Bool.or_eq_false_iff, Bool.or_eq_false_iff,
          and_assoc]
        refine and_congr_right fun _ => ?_
        by_cases hgo : (survives || !reachesClosed entries) = true
        · have hstop : (!survives && reachesClosed entries) = false := by
            cases survives <;> simp_all
          rw [if_pos hgo, ih, hstop, Bool.false_and]
          exact (and_iff_left rfl).symm
        · have hstop : (!survives && reachesClosed entries) = true := by
            cases survives <;> simp_all
          rw [if_neg hgo, hstop, Bool.true_and, Bool.not_eq_false', List.isEmpty_iff, eq_comm]
          exact (and_iff_right_of_imp fun hnil => hidesFile_of_nil hnil ih).symm
    | .other =>
      rw [dirActions, readableFiles, hidesFile]
      split
      · exact ih
      · exact ih

end Hidden

/-! ## The order of the entries -/

/-- The same tree, with the entries of its directories in another order. -/
inductive Reordered : Listing → Listing → Prop where
  /-- the same order -/
  | refl (l : Listing) : Reordered l l
  /-- one change after the other -/
  | trans {l l' l'' : Listing} (h : Reordered l l') (h' : Reordered l' l'') : Reordered l l''
  /-- two entries trade places -/
  | swap (name name' : CString) (inode inode' : Inode) (rest : Listing) :
    Reordered (.next name inode (.next name' inode' rest))
      (.next name' inode' (.next name inode rest))
  /-- a change among the later entries -/
  | next (name : CString) (inode : Inode) {rest rest' : Listing} (h : Reordered rest rest') :
    Reordered (.next name inode rest) (.next name inode rest')
  /-- a change in a subdirectory -/
  | inside (name : CString) (opens : Bool) {entries entries' : Listing} (rest : Listing)
    (h : Reordered entries entries') :
    Reordered (.next name (.directory opens entries) rest)
      (.next name (.directory opens entries') rest)

/-- Each entry has its own readable files. -/
theorem readableFiles_next (dirpath name : CString) (inode : Inode) (rest : Listing) :
    readableFiles dirpath (.next name inode rest) =
      readableFiles dirpath (.next name inode .eof) ++ readableFiles dirpath rest := by
  match inode with
  | .regular file =>
    rw [readableFiles, readableFiles]
    split
    · rfl
    · rfl
  | .directory false entries =>
    rw [readableFiles, readableFiles]
    split
    · rfl
    · rfl
  | .directory true entries =>
    rw [readableFiles, readableFiles]
    split
    · rfl
    · rw [readableFiles, List.append_nil]
  | .other =>
    rw [readableFiles, readableFiles]
    split
    · rfl
    · rfl

/-- Which files can be read does not depend on the order. -/
theorem Reordered.readableFiles_perm {l l' : Listing} (h : Reordered l l') (dirpath : CString) :
    (readableFiles dirpath l).Perm (readableFiles dirpath l') := by
  induction h generalizing dirpath with
  | refl => exact List.Perm.refl _
  | trans h h' ih ih' => exact (ih dirpath).trans (ih' dirpath)
  | swap name name' inode inode' rest =>
    rw [readableFiles_next dirpath name inode (.next name' inode' rest),
      readableFiles_next dirpath name' inode' rest,
      readableFiles_next dirpath name' inode' (.next name inode rest),
      readableFiles_next dirpath name inode rest]
    exact List.perm_append_comm_assoc _ _ _
  | @next name inode rest rest' h ih =>
    rw [readableFiles_next dirpath name inode rest, readableFiles_next dirpath name inode rest']
    exact (ih dirpath).append_left _
  | inside name opens rest h ih =>
    cases opens with
    | false =>
      rw [readableFiles, readableFiles]
    | true =>
      rw [readableFiles, readableFiles]
      split
      · exact List.Perm.refl _
      · exact (ih _).append_right _

section Exact

/-- A directory with a subdirectory that cannot be opened, and a file after it. -/
def closedThenFile : Listing :=
  .next wordA (.directory false .eof) (.next wordB (.regular (.ofContent lineA)) .eof)

/-- Even if the program survives its message, the file is not handled. -/
theorem closedThenFile_hides :
    ¬ (handledFiles (.ok ⟨⟩) wordA (.directory true closedThenFile)).Perm
      (readableFiles wordA closedThenFile) := by
  intro hperm
  have hlen := hperm.length_eq
  revert hlen
  decide

/-- An unreadable subdirectory hides only itself, if no readable file comes after it: `HandleFile`
is called once for each readable file and for no other exactly if none of them comes too late.
Then the files that are handled do not depend on the order, either. -/
theorem crawl_exact_iff (printFreed : Except Stop PUnit) (rootdir : CString) (entries : Listing) :
    ((handledFiles printFreed rootdir (.directory true entries)).Perm
        (readableFiles rootdir entries) ↔
      hidesFile printFreed.isOk rootdir entries = false) ∧
    ∀ entries', Reordered entries entries' → hidesFile printFreed.isOk rootdir entries = false →
      hidesFile printFreed.isOk rootdir entries' = false →
      (handledFiles printFreed rootdir (.directory true entries)).Perm
        (handledFiles printFreed rootdir (.directory true entries')) := by
  have hall {l : Listing} : handledFiles printFreed rootdir (.directory true l) =
      readableFiles rootdir l ↔ hidesFile printFreed.isOk rootdir l = false := by
    rw [handledFiles_dirActions]
    exact callsOf_dirActions_eq_iff rootdir l
  constructor
  · rw [← hall]
    constructor
    · intro hperm
      have hsub : (handledFiles printFreed rootdir (.directory true entries)).Sublist
          (readableFiles rootdir entries) := by
        rw [handledFiles_dirActions]
        exact callsOf_dirActions_sublist rootdir entries
      exact hsub.eq_of_length hperm.length_eq
    · intro heq
      rw [heq]
  · intro entries' hreordered h h'
    rw [hall.mpr h, hall.mpr h']
    exact hreordered.readableFiles_perm rootdir

end Exact

end MultithreadedWebServer
