import MultithreadedWebServer.HttpServer
import MultithreadedWebServer.StringTokens

/-!
# Which paths `IsPathSafe` lets through

`IsPathSafe` compares characters, the directory tree is made of components. The two
agree (`joined_prefix_iff`) up to one kind of path: those through a sibling of the root
whose name goes on where the name of the root ends. So static files are confined to the
served directory exactly when no such path can be read.
-/

namespace MultithreadedWebServer

/-! ## Characters and components -/

/-- `path` is strictly below `root` in the directory tree. -/
def IsBelow (root path : CanonicalPath) : Prop := root <+: path ∧ root ≠ path

/-- `path` passes through a sibling of `root` whose name properly extends that of
`root`: below `/srv/www`, say, it runs through `/srv/www2`. -/
def ThroughLongerSibling (root path : CanonicalPath) : Prop :=
  ∃ (parent : CanonicalPath) (dir sibling : Component) (rest : CanonicalPath),
    root = parent ++ [dir] ∧ path = parent ++ sibling :: rest ∧
      dir.name <+: sibling.name ∧ dir ≠ sibling

/-- Each component with a slash before it. -/
def joined (cs : CanonicalPath) : List UInt8 := cs.flatMap fun c => 47 :: c.name

@[simp] theorem joined_nil : joined [] = [] := rfl

theorem joined_cons (c : Component) (cs : CanonicalPath) :
    joined (c :: cs) = 47 :: (c.name ++ joined cs) := rfl

theorem joined_append (cs ds : CanonicalPath) : joined (cs ++ ds) = joined cs ++ joined ds :=
  List.flatMap_append

theorem render_nil : CanonicalPath.render [] = [47] := rfl

theorem render_of_ne {cs : CanonicalPath} (h : cs ≠ []) : CanonicalPath.render cs = joined cs := by
  obtain ⟨c, cs, rfl⟩ := List.exists_cons_of_ne_nil h
  rfl

/-- Without a slash, a prefix stays within the first component. -/
theorem prefix_of_noSlash {l a : List UInt8} (hl : (47 : UInt8) ∉ l) (p : CanonicalPath)
    (h : l <+: a ++ joined p) : l <+: a := by
  rcases Nat.le_total l.length a.length with hle | hle
  · exact List.prefix_of_prefix_length_le h (List.prefix_append _ _) hle
  · obtain ⟨t, rfl⟩ := List.prefix_of_prefix_length_le (List.prefix_append a _) h hle
    have ht : t <+: joined p := (List.prefix_append_right_inj a).mp h
    cases t with
    | nil => simp
    | cons x t =>
      cases p with
      | nil => simp at ht
      | cons d p =>
        rw [joined_cons] at ht
        obtain ⟨rfl, -⟩ := List.cons_prefix_cons.mp ht
        exact absurd (List.mem_append_right a List.mem_cons_self) hl

/-- A component ends where the next slash stands. -/
theorem eq_of_slash_before {c d : Component} {l : List UInt8} {p : CanonicalPath}
    (h : c.name ++ 47 :: l <+: d.name ++ joined p) : c = d := by
  have hc : c.name <+: d.name :=
    prefix_of_noSlash c.noSlash p ((List.prefix_append _ _).trans h)
  obtain ⟨t, ht⟩ := hc
  rw [← ht, List.append_assoc] at h
  have hl : 47 :: l <+: t ++ joined p := (List.prefix_append_right_inj _).mp h
  cases t with
  | nil => exact Component.ext (by simpa using ht)
  | cons x t =>
    obtain ⟨rfl, -⟩ := List.cons_prefix_cons.mp hl
    exact absurd (ht ▸ List.mem_append_right c.name List.mem_cons_self) d.noSlash

/-- A prefix in characters is a prefix in components, or ends inside a component. -/
theorem joined_prefix_iff : ∀ (root path : CanonicalPath),
    joined root <+: joined path ↔ root <+: path ∨ ThroughLongerSibling root path
  | [], path => by simp
  | c :: root, [] => by
    constructor
    · intro h
      simp [joined_cons] at h
    · rintro (h | ⟨parent, dir, sibling, rest, -, hpath, -⟩)
      · simp at h
      · simp at hpath
  | c :: root, d :: path => by
    rw [joined_cons, joined_cons, List.cons_prefix_cons]
    constructor
    · rintro ⟨-, h⟩
      by_cases hcd : c = d
      · subst hcd
        rw [List.prefix_append_right_inj] at h
        rcases (joined_prefix_iff root path).mp h with h | ⟨parent, dir, sibling, rest, hr, hp, hn⟩
        · exact .inl (List.cons_prefix_cons.mpr ⟨rfl, h⟩)
        · exact .inr ⟨c :: parent, dir, sibling, rest, by rw [hr]; rfl, by rw [hp]; rfl, hn⟩
      · cases root with
        | nil =>
          rw [joined_nil, List.append_nil] at h
          exact .inr ⟨[], c, d, path, rfl, rfl, prefix_of_noSlash c.noSlash path h, hcd⟩
        | cons e root =>
          rw [joined_cons] at h
          exact absurd (eq_of_slash_before h) hcd
    · rintro (h | ⟨parent, dir, sibling, rest, hr, hp, hn, hne⟩)
      · obtain ⟨rfl, t, rfl⟩ := List.cons_prefix_cons.mp h
        rw [joined_append, ← List.append_assoc]
        exact ⟨rfl, List.prefix_append _ _⟩
      · cases parent with
        | nil =>
          obtain ⟨rfl, rfl⟩ := List.cons.inj hr
          obtain ⟨rfl, rfl⟩ := List.cons.inj hp
          rw [joined_nil, List.append_nil]
          exact ⟨rfl, hn.trans (List.prefix_append _ _)⟩
        | cons a parent =>
          obtain ⟨rfl, rfl⟩ := List.cons.inj hr
          obtain ⟨rfl, rfl⟩ := List.cons.inj hp
          have hsub : joined (parent ++ [dir]) <+: joined (parent ++ sibling :: rest) :=
            (joined_prefix_iff _ _).mpr (.inr ⟨parent, dir, sibling, rest, rfl, rfl, hn, hne⟩)
          exact ⟨rfl, (List.prefix_append_right_inj _).mpr hsub⟩

/-- Below the root the path is longer. -/
theorem joined_length_lt {root path : CanonicalPath} (h : root <+: path) (hne : root ≠ path) :
    (joined root).length < (joined path).length := by
  obtain ⟨t, rfl⟩ := h
  cases t with
  | nil => simp at hne
  | cons c t => simp [joined_append, joined_cons]

/-- A longer sibling is no prefix. -/
theorem ThroughLongerSibling.not_prefix {root path : CanonicalPath}
    (h : ThroughLongerSibling root path) : ¬ root <+: path := by
  obtain ⟨parent, dir, sibling, rest, rfl, rfl, -, hne⟩ := h
  rw [List.prefix_append_right_inj, List.cons_prefix_cons]
  exact fun h => hne h.1

/-- And the path through it is longer in characters. -/
theorem ThroughLongerSibling.joined_length_lt {root path : CanonicalPath}
    (h : ThroughLongerSibling root path) : (joined root).length < (joined path).length := by
  obtain ⟨parent, dir, sibling, rest, rfl, rfl, hn, hne⟩ := h
  have hlt : dir.name.length < sibling.name.length := by
    refine Nat.lt_of_le_of_ne hn.length_le fun heq => hne (Component.ext ?_)
    exact hn.eq_of_length heq
  simp only [joined_append, joined_cons, joined_nil, List.length_append, List.length_cons,
    List.length_nil]
  omega

theorem joined_length_gt_one {cs : CanonicalPath} (h : cs ≠ []) : 1 < (joined cs).length := by
  obtain ⟨c, cs, rfl⟩ := List.exists_cons_of_ne_nil h
  have hc := List.length_pos_iff.mpr c.ne
  rw [joined_cons, List.length_cons, List.length_append]
  omega

/-- When one canonical path, as characters, properly extends another. -/
theorem render_extends_iff (root path : CanonicalPath) :
    root.render.length < path.render.length ∧ root.render <+: path.render ↔
      IsBelow root path ∨ ThroughLongerSibling root path := by
  by_cases hp : path = []
  · subst hp
    constructor
    · rintro ⟨hlt, -⟩
      by_cases hr : root = []
      · subst hr
        exact absurd hlt (Nat.lt_irrefl _)
      · rw [render_of_ne hr, render_nil, List.length_singleton] at hlt
        have := joined_length_gt_one hr
        omega
    · rintro (⟨hpre, hne⟩ | ⟨parent, dir, sibling, rest, -, hpath, -⟩)
      · exact absurd (List.prefix_nil.mp hpre) hne
      · simp at hpath
  rw [render_of_ne hp]
  by_cases hr : root = []
  · -- everything but the root itself is below the root
    subst hr
    obtain ⟨c, cs, rfl⟩ := List.exists_cons_of_ne_nil hp
    rw [render_nil]
    refine iff_of_true ⟨joined_length_gt_one hp, ?_⟩ (.inl ⟨List.nil_prefix, Ne.symm hp⟩)
    rw [joined_cons]
    exact List.cons_prefix_cons.mpr ⟨rfl, List.nil_prefix⟩
  · rw [render_of_ne hr, joined_prefix_iff]
    constructor
    · rintro ⟨hlt, hpre | hsib⟩
      · exact .inl ⟨hpre, fun heq => by rw [heq] at hlt; exact Nat.lt_irrefl _ hlt⟩
      · exact .inr hsib
    · rintro (⟨hpre, hne⟩ | hsib)
      · exact ⟨joined_length_lt hpre hne, .inl hpre⟩
      · exact ⟨hsib.joined_length_lt, .inr hsib⟩

/-! ## IsPathSafe -/

/-- What `IsPathSafe` accepts: paths below the root, and those through longer siblings. -/
theorem isPathSafe_iff {fs : FileSystem} {rootdir testfile : CppString} :
    isPathSafe fs rootdir testfile = true ↔ ∃ root path,
      fs.realpath (CString.ofBytes rootdir) = some root ∧
      fs.realpath (CString.ofBytes testfile) = some path ∧
      (IsBelow root path ∨ ThroughLongerSibling root path) := by
  unfold isPathSafe
  rcases fs.realpath (CString.ofBytes rootdir) with _ | root
  · simp
  rcases fs.realpath (CString.ofBytes testfile) with _ | path
  · simp
  have hchars : (if path.render.length ≤ root.render.length then false
      else if path.render.take root.render.length ≠ root.render then false else true) = true ↔
      root.render.length < path.render.length ∧ root.render <+: path.render := by
    rw [List.prefix_iff_eq_take, eq_comm (a := root.render)]
    split
    · rename_i h
      exact iff_of_false (by decide) fun hlt => absurd hlt.1 (Nat.not_lt.mpr h)
    · rename_i h
      split
      · rename_i hne
        exact iff_of_false (by decide) fun heq => hne heq.2
      · rename_i heq
        exact iff_of_true rfl ⟨Nat.lt_of_not_le h, not_not.mp heq⟩
  dsimp only
  rw [hchars, render_extends_iff]
  constructor
  · intro h
    exact ⟨root, path, rfl, rfl, h⟩
  · rintro ⟨_, _, hr, hp, h⟩
    obtain rfl := Option.some.inj hr
    obtain rfl := Option.some.inj hp
    exact h

/-! ## ProcessFileRequest -/

/-- `ReadFile` gets through this file. -/
structure FileSource.Readable (file : FileSource) : Prop where
  /-- `stat` works -/
  stats : file.stats = true
  /-- it is a regular file -/
  regular : file.regular = true
  /-- `open` works -/
  opens : file.opens = true
  /-- no read fails -/
  reads : readLoop file.reads file.size [] ≠ none

/-- Only a readable file is read. -/
theorem FileSource.Readable.of_readFile {file : FileSource} {m m' : Schedule}
    {res : List UInt8 × ℕ} (h : (readFile file).Returns m (some res) m') : file.Readable := by
  unfold Run.Returns readFile at h
  split at h
  · simp at h
  · rename_i hflags
    simp only [Bool.or_eq_true, Bool.not_eq_true', not_or, Bool.not_eq_false] at hflags
    refine ⟨hflags.1.1, hflags.1.2, hflags.2, fun hnone => ?_⟩
    rw [Run.bind_apply, malloc_apply] at h
    dsimp only at h
    split at h <;> simp [hnone] at h

/-- A readable file is read when its buffer can be allocated. -/
theorem FileSource.Readable.readFile_yields {file : FileSource} (h : file.Readable) :
    ∃ res, Yields (readFile file) (some res) := by
  obtain ⟨buf, hbuf⟩ := Option.ne_none_iff_exists'.mp h.reads
  refine ⟨((buf ++ [0]).set (u32 buf.length) 0, u32 buf.length), ?_⟩
  simp [Run.Returns, readFile, h.stats, h.regular, h.opens, Run.bind_apply, malloc_apply, hbuf]

/-- A name has a second element exactly when there is a dot in it. -/
theorem suffix_iff (fname : CppString) :
    (∃ suffix, (split (ascii ".") fname)[1]? = some suffix) ↔ (46 : UInt8) ∈ fname := by
  change (∃ suffix, (split [46] fname)[1]? = some suffix) ↔ _
  rw [second_split]
  split
  · rename_i hdot
    exact iff_of_true ⟨_, rfl⟩ hdot
  · rename_i hdot
    refine iff_of_false ?_ hdot
    rintro ⟨suffix, hsuffix⟩
    cases hsuffix

/-- The path of the file that a URI names. -/
def Site.fullname (site : Site) (fname : CppString) : CppString :=
  site.basedir ++ ascii "/" ++ fname

/-- A 200 means that the path passed the check and the file was read. -/
theorem processFileRequest_ok {site : Site} {uri : CppString} {m m' : Schedule}
    {resp : HttpResponse} (h : (processFileRequest site uri).Returns m resp m')
    (hok : resp.responseCode = 200) : ∃ fname suffix,
      requestedName uri = .ok fname ∧
      isPathSafe site.fs site.basedir (site.fullname fname) = true ∧
      (fileReaderReadFile site.fs (site.fullname fname)).Returns m (some resp.body) m' ∧
      (split (ascii ".") fname)[1]? = some suffix := by
  unfold processFileRequest at h
  rcases hname : requestedName uri with e | fname
  · rw [hname] at h
    cases h
  rw [hname, Run.lift_ok, Run.pure_bind] at h
  dsimp only at h
  split at h
  · rename_i hsafe
    obtain ⟨body, m₁, hread, h⟩ := Run.bind_eq_ok h
    cases body with
    | none =>
      cases h
      cases hok
    | some body =>
      dsimp only at h
      rcases hsuffix : (split (ascii ".") fname)[1]? with _ | suffix
      · rw [hsuffix] at h
        cases h
      · rw [hsuffix] at h
        cases h
        exact ⟨fname, suffix, rfl, hsafe, hread, hsuffix⟩
  · cases h
    cases hok

/-- And a URI that passes all checks gets one. -/
theorem processFileRequest_yields {site : Site} {uri fname body suffix : CppString}
    (hname : requestedName uri = .ok fname)
    (hsafe : isPathSafe site.fs site.basedir (site.fullname fname) = true)
    (hread : Yields (fileReaderReadFile site.fs (site.fullname fname)) (some body))
    (hsuffix : (split (ascii ".") fname)[1]? = some suffix) :
    Yields (processFileRequest site uri) (fileFound suffix body) := by
  unfold processFileRequest
  rw [hname, Run.lift_ok, Run.pure_bind]
  dsimp only
  rw [Site.fullname] at hsafe hread
  rw [if_pos hsafe]
  refine Run.Returns.bind hread ?_
  dsimp only
  rw [hsuffix]
  rfl

/-- Static files are confined: where a URI is answered with 200, the bytes are those of a
file strictly below the served directory. -/
def Confined (site : Site) (uri : CppString) : Prop :=
  ∀ m resp m', (processFileRequest site uri).Returns m resp m' → resp.responseCode = 200 →
    ∃ fname root path, requestedName uri = .ok fname ∧
      (fileReaderReadFile site.fs (site.fullname fname)).Returns m (some resp.body) m' ∧
      site.fs.realpath (CString.ofBytes site.basedir) = some root ∧
      site.fs.realpath (CString.ofBytes (site.fullname fname)) = some path ∧
      IsBelow root path

/-- A URI that names a readable file, with a dot in its name, under a sibling of the
served directory whose name extends that of the directory. -/
def NamesLongerSibling (site : Site) (uri : CppString) : Prop :=
  ∃ fname root path, requestedName uri = .ok fname ∧ (46 : UInt8) ∈ fname ∧
    (site.fs.file (CString.ofBytes (site.fullname fname))).Readable ∧
    site.fs.realpath (CString.ofBytes site.basedir) = some root ∧
    site.fs.realpath (CString.ofBytes (site.fullname fname)) = some path ∧
    ThroughLongerSibling root path

/-- `IsPathSafe` confines to the root exactly where no path leads through a longer
sibling, and a static file is served from outside exactly in that way. -/
theorem static_files_confined_iff (site : Site) (uri : CppString) :
    (∀ (rootdir testfile : CppString) (root path : CanonicalPath),
      site.fs.realpath (CString.ofBytes rootdir) = some root →
      site.fs.realpath (CString.ofBytes testfile) = some path →
      ((isPathSafe site.fs rootdir testfile = true → IsBelow root path) ↔
        ¬ ThroughLongerSibling root path)) ∧
    (Confined site uri ↔ ¬ NamesLongerSibling site uri) := by
  constructor
  · intro rootdir testfile root path hroot hpath
    have hsafe : isPathSafe site.fs rootdir testfile = true ↔
        IsBelow root path ∨ ThroughLongerSibling root path := by
      rw [isPathSafe_iff, hroot, hpath]
      simp
    rw [hsafe]
    constructor
    · intro h hsib
      exact hsib.not_prefix (h (.inr hsib)).1
    · rintro h (hbelow | hsib)
      · exact hbelow
      · exact absurd hsib h
  · constructor
    · rintro hconf ⟨fname, root, path, hname, hdot, hreadable, hroot, hpath, hsib⟩
      obtain ⟨suffix, hsuffix⟩ := (suffix_iff fname).mpr hdot
      obtain ⟨res, hres⟩ := hreadable.readFile_yields
      have hread : Yields (fileReaderReadFile site.fs (site.fullname fname))
          (some (res.1.take res.2)) := Run.Returns.bind hres rfl
      have hsafe := isPathSafe_iff.mpr ⟨root, path, hroot, hpath, .inr hsib⟩
      obtain ⟨fname', root', path', hname', -, hroot', hpath', hbelow⟩ :=
        hconf _ _ _ (processFileRequest_yields hname hsafe hread hsuffix) rfl
      obtain rfl : fname = fname' := Except.ok.inj (hname.symm.trans hname')
      obtain rfl := Option.some.inj (hroot.symm.trans hroot')
      obtain rfl := Option.some.inj (hpath.symm.trans hpath')
      exact hsib.not_prefix hbelow.1
    · intro hno m resp m' h hok
      obtain ⟨fname, suffix, hname, hsafe, hread, hsuffix⟩ := processFileRequest_ok h hok
      obtain ⟨root, path, hroot, hpath, hbelow | hsib⟩ := isPathSafe_iff.mp hsafe
      · exact ⟨fname, root, path, hname, hread, hroot, hpath, hbelow⟩
      · obtain ⟨res, m₁, hres, hbody⟩ := Run.bind_eq_ok hread
        obtain ⟨res, rfl⟩ : ∃ r, res = some r := by
          cases res with
          | none => cases hbody
          | some r => exact ⟨r, rfl⟩
        exact absurd ⟨fname, root, path, hname, (suffix_iff fname).mp ⟨suffix, hsuffix⟩,
          .of_readFile hres, hroot, hpath, hsib⟩ hno

/-! A directory `/srv/www` with a sibling `/srv/www-old`, and a URI that names the file
`/srv/www-old/key.txt` through it. -/

/-- The served directory. -/
def servedPath : CanonicalPath :=
  [⟨ascii "srv", by decide, by decide, by decide, by decide, by decide⟩,
   ⟨ascii "www", by decide, by decide, by decide, by decide, by decide⟩]

/-- The file outside. -/
def outsidePath : CanonicalPath :=
  [⟨ascii "srv", by decide, by decide, by decide, by decide, by decide⟩,
   ⟨ascii "www-old", by decide, by decide, by decide, by decide, by decide⟩,
   ⟨ascii "key.txt", by decide, by decide, by decide, by decide, by decide⟩]

/-- A server for `/srv/www`. -/
def siblingSite : Site where
  basedir := ascii "/srv/www"
  fs :=
    { realpath := fun name =>
        if name.bytes = ascii "/srv/www" then some servedPath
        else if name.bytes = ascii "/srv/www/../www-old/key.txt" then some outsidePath
        else none
      file := fun _ => ⟨true, true, 6, true, [.bytes (ascii "secret")]⟩ }
  processQuery := fun _ => pure []

theorem www_old_not_confined :
    ascii "/static/" <+: ascii "/static/../www-old/key.txt" ∧
      ¬ Confined siblingSite (ascii "/static/../www-old/key.txt") := by
  refine ⟨by decide, fun hconf => ?_⟩
  have hname : requestedName (ascii "/static/../www-old/key.txt") =
      .ok (ascii "../www-old/key.txt") := by decide
  have hsafe : isPathSafe siblingSite.fs siblingSite.basedir
      (siblingSite.fullname (ascii "../www-old/key.txt")) = true := by decide
  have hsuffix : (split (ascii ".") (ascii "../www-old/key.txt"))[1]? = some [] := by decide
  have hread : Yields (fileReaderReadFile siblingSite.fs
      (siblingSite.fullname (ascii "../www-old/key.txt"))) (some (ascii "secret")) := rfl
  have hpath : siblingSite.fs.realpath (CString.ofBytes (siblingSite.fullname
      (ascii "../www-old/key.txt"))) = some outsidePath := by decide
  have hroot : siblingSite.fs.realpath (CString.ofBytes siblingSite.basedir) =
      some servedPath := by decide
  obtain ⟨fname, root, path, hname', -, hroot', hpath', hbelow⟩ :=
    hconf _ _ _ (processFileRequest_yields hname hsafe hread hsuffix) rfl
  obtain rfl : _ = fname := Except.ok.inj (hname.symm.trans hname')
  obtain rfl := Option.some.inj (hroot.symm.trans hroot')
  obtain rfl := Option.some.inj (hpath.symm.trans hpath')
  exact absurd hbelow.1 (by decide)

end MultithreadedWebServer
