import RestCache.Foundation.CaseMapping
import RestCache.Foundation.UniqueDecoding

/-!
# path.posix.normalize

A path is read segment by segment: empty and dot segments are dropped, and a
double dot takes the segment before it away.
-/

namespace RestCache
namespace Foundation

namespace PosixPath

/-- The kept segments, last one first, and the segments still to read. -/
def resolveDots (allowAboveRoot : Bool) :
    List JsString -> List JsString -> List JsString
  | kept, [] => kept.reverse
  | kept, seg :: rest =>
      if seg = [] ∨ seg = ['.'] then
        resolveDots allowAboveRoot kept rest
      else if seg = ['.', '.'] then
        match kept with
        | top :: below =>
            if top ≠ ['.', '.'] then
              resolveDots allowAboveRoot below rest
            else if allowAboveRoot then
              resolveDots allowAboveRoot (seg :: kept) rest
            else
              resolveDots allowAboveRoot kept rest
        | [] =>
            if allowAboveRoot then
              resolveDots allowAboveRoot [seg] rest
            else
              resolveDots allowAboveRoot [] rest
      else
        resolveDots allowAboveRoot (seg :: kept) rest

def normalize (path : JsString) : JsString :=
  if path = [] then
    ['.']
  else
    let isAbsolute := path.head? = some '/'
    let trailingSeparator := path.getLast? = some '/'
    let body := ['/'].intercalate
      (resolveDots (!isAbsolute) [] (path.splitOn '/'))
    if body = [] then
      if isAbsolute then ['/']
      else if trailingSeparator then ['.', '/']
      else ['.']
    else
      let closed := if trailingSeparator then body ++ ['/'] else body
      if isAbsolute then '/' :: closed else closed

/-!
## The characters of a normalised path
-/

theorem mem_resolveDots {allow : Bool} {kept segs : List JsString}
    {s : JsString} (h : s ∈ resolveDots allow kept segs) :
    s ∈ kept ∨ s ∈ segs := by
  fun_induction resolveDots allow kept segs with
  | case1 kept => exact Or.inl (by simpa using h)
  | case2 kept seg rest _ ih =>
      exact (ih h).imp id (List.mem_cons_of_mem seg)
  | case3 rest top below _ _ ih =>
      exact (ih h).imp (List.mem_cons_of_mem top) (List.mem_cons_of_mem _)
  | case4 rest top below hdots _ hallow ih =>
      rcases ih h with hkept | hrest
      · rcases List.mem_cons.mp hkept with hs | hkept
        · exact Or.inr (by simp [hs])
        · exact Or.inl hkept
      · exact Or.inr (List.mem_cons_of_mem _ hrest)
  | case5 rest top below _ _ _ ih =>
      exact (ih h).imp id (List.mem_cons_of_mem _)
  | case6 rest _ _ ih =>
      rcases ih h with hkept | hrest
      · exact Or.inr (by simpa using Or.inl (List.mem_singleton.mp hkept))
      · exact Or.inr (List.mem_cons_of_mem _ hrest)
  | case7 rest _ _ ih =>
      exact (ih h).imp id (List.mem_cons_of_mem _)
  | case8 kept seg rest _ _ ih =>
      rcases ih h with hkept | hrest
      · rcases List.mem_cons.mp hkept with hs | hkept
        · exact Or.inr (by simp [hs])
        · exact Or.inl hkept
      · exact Or.inr (List.mem_cons_of_mem _ hrest)

theorem mem_of_mem_splitOn {sep c : Char} {s part : JsString}
    (hpart : part ∈ s.splitOn sep) (hc : c ∈ part) : c ∈ s := by
  have hmem : c ∈ [sep].intercalate (s.splitOn sep) :=
    UniqueDecoding.mem_intercalate_of_mem hpart hc
  rwa [List.intercalate_splitOn] at hmem

theorem not_mem_of_mem_splitOn {sep : Char} {s part : JsString}
    (hpart : part ∈ s.splitOn sep) : sep ∉ part := by
  induction s generalizing part with
  | nil =>
      rw [List.splitOn_nil, List.mem_singleton] at hpart
      rw [hpart]
      exact List.not_mem_nil
  | cons c s ih =>
      rw [List.splitOn_cons_eq_if_modifyHead] at hpart
      split at hpart
      · rcases List.mem_cons.mp hpart with hnil | hrest
        · rw [hnil]
          exact List.not_mem_nil
        · exact ih hrest
      · rename_i hc
        cases hparts : s.splitOn sep with
        | nil => exact absurd hparts (List.splitOn_ne_nil sep s)
        | cons first rest =>
            rw [hparts, List.modifyHead_cons] at hpart
            rw [hparts] at ih
            rcases List.mem_cons.mp hpart with hhead | hrest
            · rw [hhead, List.mem_cons, not_or]
              exact ⟨fun heq => hc (by simp [heq]), ih List.mem_cons_self⟩
            · exact ih (List.mem_cons_of_mem first hrest)

theorem mem_normalize {path : JsString} {c : Char}
    (h : c ∈ normalize path) : c = '.' ∨ c = '/' ∨ c ∈ path := by
  have hbody : forall allow,
      c ∈ ['/'].intercalate (resolveDots allow [] (path.splitOn '/')) ->
      c = '/' ∨ c ∈ path := by
    intro allow hmem
    rcases UniqueDecoding.mem_intercalate hmem with hslash | ⟨part, hpart, hc⟩
    · exact Or.inl hslash
    · rcases mem_resolveDots hpart with hnil | hsplit
      · exact absurd hnil (by simp)
      · exact Or.inr (mem_of_mem_splitOn hsplit hc)
  unfold normalize at h
  grind

/-!
## Paths in normal form

A path in normal form is a slash before each of its segments, and normalising
it changes nothing.
-/

structure Normal (seg : JsString) : Prop where
  nonempty : seg ≠ []
  dot : seg ≠ ['.']
  dots : seg ≠ ['.', '.']
  oneSegment : '/' ∉ seg

def joinPath (segs : List JsString) : JsString :=
  segs.flatMap (fun seg => '/' :: seg)

@[simp]
theorem joinPath_nil : joinPath [] = [] := rfl

@[simp]
theorem joinPath_cons (seg : JsString) (segs : List JsString) :
    joinPath (seg :: segs) = '/' :: (seg ++ joinPath segs) := by
  simp [joinPath]

theorem joinPath_append (segs more : List JsString) :
    joinPath (segs ++ more) = joinPath segs ++ joinPath more := by
  simp [joinPath]

theorem joinPath_eq_intercalate (seg : JsString) (segs : List JsString) :
    joinPath (seg :: segs) = '/' :: ['/'].intercalate (seg :: segs) := by
  induction segs generalizing seg with
  | nil => simp
  | cons next rest ih =>
      rw [joinPath_cons, ih next]
      simp

theorem splitOn_joinPath {segs : List JsString}
    (h : forall seg, seg ∈ segs -> '/' ∉ seg) :
    (joinPath segs).splitOn '/' = [] :: segs := by
  induction segs with
  | nil => rfl
  | cons seg rest ih =>
      have hrest := ih (fun other hother => h other (List.mem_cons_of_mem seg hother))
      have hhead : forall more : JsString,
          ('/' :: more).splitOn '/' = [] :: more.splitOn '/' :=
        fun more =>
          List.splitOn_append_cons_self_of_not_mem List.not_mem_nil more
      rw [joinPath_cons, hhead]
      cases rest with
      | nil =>
          rw [joinPath_nil, List.append_nil]
          rw [List.splitOn_eq_singleton (h seg (by simp))]
      | cons next rest =>
          rw [joinPath_cons, hhead] at hrest
          rw [joinPath_cons, List.splitOn_append_cons_self_of_not_mem
            (h seg (by simp))]
          exact congrArg (fun segs => [] :: seg :: segs)
            (List.cons.inj hrest).right

theorem joinPath_splitOn (s : JsString) : joinPath (s.splitOn '/') = '/' :: s := by
  cases hparts : s.splitOn '/' with
  | nil => exact absurd hparts (List.splitOn_ne_nil '/' s)
  | cons first rest =>
      rw [joinPath_eq_intercalate, ← hparts, List.intercalate_splitOn]

theorem joinPath_injective {segs more : List JsString}
    (hsegs : forall seg, seg ∈ segs -> '/' ∉ seg)
    (hmore : forall seg, seg ∈ more -> '/' ∉ seg)
    (h : joinPath segs = joinPath more) : segs = more := by
  have hsplit := congrArg (List.splitOn '/') h
  rw [splitOn_joinPath hsegs, splitOn_joinPath hmore] at hsplit
  exact (List.cons.inj hsplit).right

theorem resolveDots_cons {allow : Bool} {kept segs : List JsString}
    {seg : JsString} (h : Normal seg) :
    resolveDots allow kept (seg :: segs) =
      resolveDots allow (seg :: kept) segs := by
  simp [resolveDots, h.nonempty, h.dot, h.dots]

theorem resolveDots_normal {allow : Bool} {kept segs more : List JsString}
    (h : forall seg, seg ∈ segs -> Normal seg) :
    resolveDots allow kept (segs ++ more) =
      resolveDots allow (segs.reverse ++ kept) more := by
  induction segs generalizing kept with
  | nil => rfl
  | cons seg rest ih =>
      rw [List.cons_append, resolveDots_cons (h seg (by simp)),
        ih (fun other hother => h other (List.mem_cons_of_mem seg hother))]
      simp

theorem resolveDots_empty (allow : Bool) (kept segs : List JsString) :
    resolveDots allow kept ([] :: segs) = resolveDots allow kept segs := by
  simp [resolveDots]

theorem not_slash_getLast {seg : JsString} (h : '/' ∉ seg) :
    seg.getLast? ≠ some '/' :=
  fun hlast => h (List.mem_of_getLast? hlast)

theorem joinPath_getLast {segs : List JsString}
    (h : forall seg, seg ∈ segs -> seg ≠ [] ∧ '/' ∉ seg) :
    (joinPath segs).getLast? ≠ some '/' := by
  induction segs with
  | nil => simp
  | cons seg rest ih =>
      rcases h seg (by simp) with ⟨hne, hslash⟩
      have hrest := ih (fun other hother => h other (List.mem_cons_of_mem seg hother))
      rw [joinPath_cons, List.getLast?_cons, List.getLast?_append]
      cases hlast : (joinPath rest).getLast? with
      | some c =>
          rw [hlast] at hrest
          simpa using hrest
      | none =>
          have hseg := not_slash_getLast hslash
          cases hend : seg.getLast? with
          | none => exact absurd (List.getLast?_eq_none_iff.mp hend) hne
          | some c =>
              rw [hend] at hseg
              simpa using hseg

theorem resolveDots_joinPath {segs more : List JsString}
    (h : forall seg, seg ∈ segs -> Normal seg) (hmore : more = [] ∨ more = [[]]) :
    resolveDots false [] ([] :: (segs ++ more)) = segs := by
  rw [resolveDots_empty, resolveDots_normal h]
  rcases hmore with rfl | rfl
  · simp [resolveDots]
  · simp [resolveDots]

/-- A normal path, also with a slash at its end, is normalised to itself. -/
theorem normalize_joinPath {segs more : List JsString} (hne : segs ≠ [])
    (h : forall seg, seg ∈ segs -> Normal seg)
    (hmore : more = [] ∨ more = [[]]) :
    normalize (joinPath (segs ++ more)) = joinPath (segs ++ more) := by
  have hsplit : (joinPath (segs ++ more)).splitOn '/' =
      [] :: (segs ++ more) := by
    apply splitOn_joinPath
    intro seg hseg
    rcases List.mem_append.mp hseg with hseg | hseg
    · exact (h seg hseg).oneSegment
    · rcases hmore with rfl | rfl
      · exact absurd hseg List.not_mem_nil
      · rw [List.mem_singleton.mp hseg]
        exact List.not_mem_nil
  have hresolve := resolveDots_joinPath h hmore
  have hlast := joinPath_getLast
    (fun seg hseg => ⟨(h seg hseg).nonempty, (h seg hseg).oneSegment⟩)
  cases segs with
  | nil => exact absurd rfl hne
  | cons seg rest =>
      have hbody : ['/'].intercalate (seg :: rest) ≠ [] := by
        intro hempty
        have hseg := (h seg (by simp)).nonempty
        cases rest <;> simp_all
      have hhead : (joinPath (seg :: rest ++ more)).head? = some '/' := by
        simp
      have hpath : joinPath (seg :: rest ++ more) ≠ [] := by
        simp
      unfold normalize
      rw [if_neg hpath, hsplit, hhead]
      simp only [decide_true, Bool.not_true, hresolve, if_neg hbody, if_true]
      rcases hmore with rfl | rfl
      · rw [List.append_nil, if_neg hlast, joinPath_eq_intercalate]
      · have htail : joinPath (seg :: rest ++ [[]]) =
            ('/' :: ['/'].intercalate (seg :: rest)) ++ ['/'] := by
          rw [joinPath_append, joinPath_eq_intercalate, joinPath_cons,
            joinPath_nil, List.nil_append]
        rw [htail, if_pos List.getLast?_concat]
        rfl

theorem toLowerCase_joinPath (lower : CaseMapping) (segs : List JsString) :
    lower.toLowerCase (joinPath segs) =
      joinPath (segs.map lower.toLowerCase) := by
  induction segs with
  | nil => simp
  | cons seg rest ih =>
      rw [joinPath_cons, lower.toLowerCase_slash_cons, List.map_cons,
        joinPath_cons, ← ih]
      cases rest with
      | nil => simp
      | cons next rest =>
          rw [joinPath_cons, lower.slash, lower.toLowerCase_slash_cons]

end PosixPath

end Foundation
end RestCache
