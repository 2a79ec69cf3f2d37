import Mathlib.Data.Bool.AllAny
import MultithreadedWebServer.PathSafety
import MultithreadedWebServer.UrlParsing

/-!
# The type of a static file

The name of a static file is what follows `/static/` in the decoded path. Its type should
be the one of its suffix, the text after the last dot; `ProcessFileRequest` takes what
follows the first dot instead, up to the second.
-/

namespace MultithreadedWebServer

/-! ## The name in the URI -/

/-- `/static/`. -/
def staticPrefix : CppString := ascii "/static/"

/-- The name of the file that follows `/static/`: decoded, up to the first question mark. -/
def staticName (t : CppString) : CppString := decodeLoop (t.takeWhile (· ≠ 63))

theorem urlPath_eq (url : CppString) : urlPath url = url.takeWhile (· ≠ 63) := by
  obtain ⟨tokens, hsplit⟩ := head_split 63 url
  have hquestion : split (ascii "?") url = url.takeWhile (· ≠ 63) :: tokens := hsplit
  rw [urlPath, hquestion]
  rfl

theorem urlPath_static (t : CppString) :
    urlPath (staticPrefix ++ t) = staticPrefix ++ t.takeWhile (· ≠ 63) := by
  have hall : (staticPrefix.all fun c => decide (c ≠ 63)) = true := by decide
  rw [urlPath_eq, List.takeWhile_append_of_pos (List.all_eq_true.mp hall)]

/-- The decoded path of such a URI still starts with `/static/`. -/
theorem decode_static (t : CppString) :
    decodeLoop (urlPath (staticPrefix ++ t)) = staticPrefix ++ staticName t := by
  have hplain : ∀ c ∈ staticPrefix, c ≠ 37 ∧ c ≠ 43 := List.all_iff_forall_prop.mp (by decide)
  rw [urlPath_static, decodeLoop_append hplain, staticName]

/-- `substr(8)` is in range. -/
theorem requestedName_static {t : CppString} (h : ShortUrl (staticPrefix ++ t)) :
    requestedName (staticPrefix ++ t) = .ok (staticName t) := by
  rw [requestedName, parse_of_short h, ok_bind]
  dsimp only
  rw [decode_static, substrFrom, if_neg]
  · rfl
  · rw [List.length_append]
    exact Nat.not_lt.mpr (Nat.le_add_right _ _)

theorem requestedName_long {uri : CppString} (h : ¬ ShortUrl uri) :
    requestedName uri = .error .diverges := by
  rw [requestedName, parse_of_not_short h]
  rfl

/-! ## Suffixes -/

/-- What follows the last occurrence of a character. -/
def afterLast (c : UInt8) (s : CppString) : CppString := (s.reverse.takeWhile (· ≠ c)).reverse

/-- The type of the suffix of a file: of what follows the last dot in the last component of
its name. -/
def suffixType (fname : CppString) : CppString :=
  if 46 ∈ afterLast 47 fname then contentType (afterLast 46 (afterLast 47 fname))
  else ascii "others"

/-- What follows the first dot, up to the second. -/
def secondPart (fname : CppString) : CppString :=
  ((fname.dropWhile (· ≠ 46)).drop 1).takeWhile (· ≠ 46)

/-- The suffixes that the server knows, those with the same type together, and that type. -/
def suffixClasses : List (List CppString × CppString) :=
  [([ascii "html", ascii "htm"], ascii "text/html"),
    ([ascii "jpeg", ascii "jpg"], ascii "image/jpeg"),
    ([ascii "png"], ascii "image/png"), ([ascii "doc"], ascii "text.doc"),
    ([ascii "odt"], ascii "text.odt"), ([ascii "pdf"], ascii "text.pdf"),
    ([ascii "txt"], ascii "text.txt"), ([ascii "wks"], ascii "text.wks")]

/-- The part of the name that the server looks at is of the same class as its suffix: both are
`html` or `htm`, both are `jpeg` or `jpg`, they are the same known suffix, or neither is known. A
name without a suffix has none that is known. -/
def SuffixAgrees (fname : CppString) : Prop :=
  ∀ p ∈ suffixClasses, secondPart fname ∈ p.1 ↔
    46 ∈ afterLast 47 fname ∧ afterLast 46 (afterLast 47 fname) ∈ p.1

theorem contentType_known {p : List CppString × CppString} (hp : p ∈ suffixClasses)
    {suffix : CppString} (hmem : suffix ∈ p.1) : contentType suffix = p.2 := by
  have hall : (suffixClasses.all fun p => p.1.all fun suffix =>
      decide (contentType suffix = p.2)) = true := by decide
  exact of_decide_eq_true (List.all_eq_true.mp (List.all_eq_true.mp hall p hp) suffix hmem)

theorem contentType_unknown {suffix : CppString} (h : ∀ p ∈ suffixClasses, suffix ∉ p.1) :
    contentType suffix = ascii "others" := by
  simp only [suffixClasses, List.forall_mem_cons] at h
  simp only [List.mem_cons, List.not_mem_nil, or_false, not_or] at h
  simp [contentType, h]

theorem suffixClasses_known {p : List CppString × CppString} (hp : p ∈ suffixClasses) :
    p.2 ≠ ascii "others" := by
  have hall : (suffixClasses.all fun p => decide (p.2 ≠ ascii "others")) = true := by decide
  exact of_decide_eq_true (List.all_eq_true.mp hall p hp)

/-- Each class has a type of its own. -/
theorem suffixClasses_own {p q : List CppString × CppString} (hp : p ∈ suffixClasses)
    (hq : q ∈ suffixClasses) (htype : p.2 = q.2) : p.1 = q.1 := by
  have hall : (suffixClasses.all fun p => suffixClasses.all fun q =>
      decide (p.2 = q.2 → p.1 = q.1)) = true := by decide
  exact of_decide_eq_true (List.all_eq_true.mp (List.all_eq_true.mp hall p hp) q hq) htype

theorem contentType_eq_iff_mem {p : List CppString × CppString} (hp : p ∈ suffixClasses)
    (suffix : CppString) : contentType suffix = p.2 ↔ suffix ∈ p.1 := by
  refine ⟨fun htype => ?_, contentType_known hp⟩
  by_cases hin : ∃ q ∈ suffixClasses, suffix ∈ q.1
  · obtain ⟨q, hq, hmem⟩ := hin
    rw [contentType_known hq hmem] at htype
    exact suffixClasses_own hq hp htype ▸ hmem
  · rw [contentType_unknown fun q hq hmem => hin ⟨q, hq, hmem⟩] at htype
    exact absurd htype.symm (suffixClasses_known hp)

theorem suffixType_eq_iff_mem {p : List CppString × CppString} (hp : p ∈ suffixClasses)
    (fname : CppString) : suffixType fname = p.2 ↔
      46 ∈ afterLast 47 fname ∧ afterLast 46 (afterLast 47 fname) ∈ p.1 := by
  rw [suffixType]
  split
  · rename_i hdot
    rw [contentType_eq_iff_mem hp, and_iff_right hdot]
  · rename_i hdot
    exact iff_of_false (suffixClasses_known hp).symm fun h => hdot h.1

/-- The type of a suffix is one of a class, or `others`. -/
theorem contentType_cases (suffix : CppString) :
    (∃ p ∈ suffixClasses, contentType suffix = p.2) ∨ contentType suffix = ascii "others" := by
  by_cases hin : ∃ p ∈ suffixClasses, suffix ∈ p.1
  · obtain ⟨p, hp, hmem⟩ := hin
    exact .inl ⟨p, hp, contentType_known hp hmem⟩
  · exact .inr (contentType_unknown fun p hp hmem => hin ⟨p, hp, hmem⟩)

theorem suffixType_cases (fname : CppString) :
    (∃ p ∈ suffixClasses, suffixType fname = p.2) ∨ suffixType fname = ascii "others" := by
  rw [suffixType]
  split
  · exact contentType_cases _
  · exact .inr rfl

/-- The types agree exactly if the classes do. -/
theorem suffixAgrees_iff (fname : CppString) :
    SuffixAgrees fname ↔ contentType (secondPart fname) = suffixType fname := by
  constructor
  · intro hagrees
    rcases contentType_cases (secondPart fname) with ⟨p, hp, htype⟩ | hothers
    · have hmem := (contentType_eq_iff_mem hp _).mp htype
      rw [htype, (suffixType_eq_iff_mem hp _).mpr ((hagrees p hp).mp hmem)]
    · rcases suffixType_cases fname with ⟨p, hp, htype⟩ | hothers'
      · have hmem := (suffixType_eq_iff_mem hp _).mp htype
        rw [htype, (contentType_eq_iff_mem hp _).mpr ((hagrees p hp).mpr hmem)]
      · rw [hothers, hothers']
  · intro htype p hp
    rw [← contentType_eq_iff_mem hp, htype, suffixType_eq_iff_mem hp]

/-! ## Every safe and readable file -/

/-- The request is answered with 200 and with the type of the suffix. -/
def ServesType (site : Site) (uri fname : CppString) (mallocs : Schedule) : Prop :=
  ∃ page mallocs', processFileRequest site uri mallocs = .ok (page, mallocs') ∧
    page.responseCode = 200 ∧
    page.headers = StringMap.assign (ascii "Content-type") (suffixType fname) []

section Requests

variable {site : Site} {t body : CppString} {mallocs mallocs' : Schedule}

/-- The answer for a safe and readable file, if its name has a dot. -/
theorem processFileRequest_static (hshort : ShortUrl (staticPrefix ++ t))
    (hsafe : isPathSafe site.fs site.basedir (site.fullname (staticName t)) = true)
    (hread : fileReaderReadFile site.fs (site.fullname (staticName t)) mallocs =
      .ok (some body, mallocs')) :
    processFileRequest site (staticPrefix ++ t) mallocs =
      if 46 ∈ staticName t then .ok (fileFound (secondPart (staticName t)) body, mallocs')
      else .error .fault := by
  rw [Site.fullname] at hsafe hread
  have hdot : (split (ascii ".") (staticName t))[1]? =
      if 46 ∈ staticName t then some (secondPart (staticName t)) else none := second_split 46 _
  unfold processFileRequest
  rw [requestedName_static hshort, Run.lift_ok, Run.pure_bind, if_pos hsafe, Run.bind_ok hread]
  dsimp only
  rw [hdot]
  split <;> rfl

/-- A safe and readable file is served with the type of its suffix exactly if its name has a
dot, and what follows the first dot is of the same class. -/
theorem static_type_iff
    (hsafe : isPathSafe site.fs site.basedir (site.fullname (staticName t)) = true)
    (hread : fileReaderReadFile site.fs (site.fullname (staticName t)) mallocs =
      .ok (some body, mallocs')) :
    ServesType site (staticPrefix ++ t) (staticName t) mallocs ↔
      ShortUrl (staticPrefix ++ t) ∧ 46 ∈ staticName t ∧ SuffixAgrees (staticName t) := by
  rw [suffixAgrees_iff]
  by_cases hshort : ShortUrl (staticPrefix ++ t)
  · have hrun := processFileRequest_static hshort hsafe hread
    by_cases hdot : 46 ∈ staticName t
    · rw [if_pos hdot] at hrun
      constructor
      · rintro ⟨page, mallocs₁, hpage, -, hheaders⟩
        obtain ⟨rfl, -⟩ := Prod.mk.inj (Except.ok.inj (hrun.symm.trans hpage))
        refine ⟨hshort, hdot, ?_⟩
        rw [fileFound] at hheaders
        exact (Prod.mk.inj (List.cons.inj hheaders).1).2
      · rintro ⟨-, -, htype⟩
        refine ⟨_, _, hrun, rfl, ?_⟩
        rw [fileFound, htype]
    · rw [if_neg hdot] at hrun
      constructor
      · rintro ⟨page, mallocs₁, hpage, -⟩
        rw [hrun] at hpage
        cases hpage
      · rintro ⟨-, hin, -⟩
        exact absurd hin hdot
  · have hrun : processFileRequest site (staticPrefix ++ t) mallocs = .error .diverges := by
      rw [processFileRequest, requestedName_long hshort]
      rfl
    constructor
    · rintro ⟨page, mallocs₁, hpage, -⟩
      rw [hrun] at hpage
      cases hpage
    · rintro ⟨hs, -⟩
      exact absurd hs hshort

/-! A directory `/srv/www` with one file, which has every name. -/

/-- The file in it. -/
def indexPath : CanonicalPath :=
  servedPath ++ [⟨ascii "index", by decide, by decide, by decide, by decide, by decide⟩]

/-- A server for `/srv/www`. -/
def wwwSite : Site where
  basedir := ascii "/srv/www"
  fs :=
    { realpath := fun name =>
        if name.bytes = ascii "/srv/www" then some servedPath else some indexPath
      file := fun _ => ⟨true, true, 2, true, [.bytes (ascii "hi")]⟩ }
  processQuery := fun _ => pure []

/-- One dot. -/
theorem static_type_iff_html :
    ServesType wwwSite (ascii "/static/a.html") (ascii "a.html") [] := by
  have hread : fileReaderReadFile wwwSite.fs (wwwSite.fullname (staticName (ascii "a.html"))) [] =
      .ok (some (ascii "hi"), []) := rfl
  have hname : staticName (ascii "a.html") = ascii "a.html" := by decide
  have hsafe : isPathSafe wwwSite.fs wwwSite.basedir
      (wwwSite.fullname (staticName (ascii "a.html"))) = true := by decide
  have hshort : ShortUrl (staticPrefix ++ ascii "a.html") :=
    ⟨by decide, by decide, fun _ he => nomatch he⟩
  have hserves := (static_type_iff hsafe hread).mpr
    ⟨hshort, by decide, (suffixAgrees_iff _).mpr (by decide)⟩
  rw [hname] at hserves
  exact hserves

/-- With two dots the type is the one of the wrong part, and without a dot there is no part
to look at. -/
theorem wrong_types : ¬ ServesType wwwSite (ascii "/static/a.b.html") (ascii "a.b.html") [] ∧
    ¬ ServesType wwwSite (ascii "/static/readme") (ascii "readme") [] := by
  constructor
  · rintro ⟨page, mallocs', hpage, -, hheaders⟩
    have hrun : processFileRequest wwwSite (ascii "/static/a.b.html") [] =
        .ok (fileFound (ascii "b") (ascii "hi"), []) := rfl
    obtain ⟨rfl, -⟩ := Prod.mk.inj (Except.ok.inj (hrun.symm.trans hpage))
    exact absurd hheaders (by decide)
  · rintro ⟨page, mallocs', hpage, -⟩
    have hrun : processFileRequest wwwSite (ascii "/static/readme") [] = .error .fault := rfl
    rw [hrun] at hpage
    cases hpage

end Requests

end MultithreadedWebServer
