import Mathlib.Data.Bool.AllAny
import RestCache.Keys.CacheKey

/-!
# The path part of a key

The path part of an ASCII path that starts with a slash is a slash before each
segment that is left when the dots are resolved.  What is behind the last dot
segment is kept as it is, and a character in the middle can be changed.
-/

namespace RestCache
namespace Foundation

namespace PosixPath

/-!
## Resolving dots
-/

theorem resolveDots_append_normal {allow : Bool} {kept segs more : List JsString}
    (h : forall seg, seg ∈ more -> Normal seg) :
    resolveDots allow kept (segs ++ more) =
      resolveDots allow kept segs ++ more := by
  induction segs generalizing kept with
  | nil =>
      have hrest := @resolveDots_normal allow kept more [] h
      rw [List.append_nil] at hrest
      rw [List.nil_append, hrest]
      simp [resolveDots]
  | cons seg rest ih =>
      rw [List.cons_append]
      unfold resolveDots
      split
      · exact ih
      · split
        · split
          · split
            · exact ih
            · split <;> exact ih
          · split <;> exact ih
        · exact ih

theorem resolveDots_all_normal {kept segs : List JsString}
    (hkept : forall seg, seg ∈ kept -> Normal seg)
    (hsegs : forall seg, seg ∈ segs -> '/' ∉ seg) :
    forall seg, seg ∈ resolveDots false kept segs -> Normal seg := by
  induction segs generalizing kept with
  | nil =>
      intro seg hseg
      exact hkept seg (by simpa [resolveDots] using hseg)
  | cons first rest ih =>
      have hrest : forall seg, seg ∈ rest -> '/' ∉ seg :=
        fun seg hseg => hsegs seg (List.mem_cons_of_mem first hseg)
      unfold resolveDots
      split
      · exact ih hkept hrest
      · rename_i hempty
        split
        · cases kept with
          | nil => exact ih (by simp) hrest
          | cons top below =>
              have hbelow : forall seg, seg ∈ below -> Normal seg :=
                fun seg hseg => hkept seg (List.mem_cons_of_mem top hseg)
              have htop : top ≠ ['.', '.'] := (hkept top (by simp)).dots
              show forall seg, seg ∈ (if top ≠ ['.', '.'] then _ else _) -> _
              rw [if_pos htop]
              exact ih hbelow hrest
        · rename_i hdots
          apply ih
          · intro seg hseg
            rcases List.mem_cons.mp hseg with hfirst | hmem
            · rw [hfirst]
              exact ⟨fun h => hempty (Or.inl h), fun h => hempty (Or.inr h),
                hdots, hsegs first (by simp)⟩
            · exact hkept seg hmem
          · exact hrest

theorem normal_of_mem {seg : JsString} {c : Char} (hc : c ∈ seg)
    (hdot : c ≠ '.') (hslash : '/' ∉ seg) : Normal seg := by
  refine ⟨?_, ?_, ?_, hslash⟩
  · intro h
    rw [h] at hc
    exact absurd hc List.not_mem_nil
  · intro h
    rw [h] at hc
    exact hdot (List.mem_singleton.mp hc)
  · intro h
    rw [h] at hc
    exact hdot (by simpa using hc)

/-!
## Segments of a text
-/

theorem splitOn_slash_cons (s : JsString) :
    ('/' :: s).splitOn '/' = [] :: s.splitOn '/' :=
  List.splitOn_append_cons_self_of_not_mem List.not_mem_nil s

theorem splitOn_append (s t : JsString) :
    exists segs a b more, s.splitOn '/' = segs ++ [a] ∧
      t.splitOn '/' = b :: more ∧
      (s ++ t).splitOn '/' = segs ++ (a ++ b) :: more := by
  rcases List.eq_nil_or_concat' (s.splitOn '/') with hnil | ⟨segs, a, hsegs⟩
  · exact absurd hnil (List.splitOn_ne_nil '/' s)
  · cases hmore : t.splitOn '/' with
    | nil => exact absurd hmore (List.splitOn_ne_nil '/' t)
    | cons b more =>
        have hs := joinPath_splitOn s
        have ht := joinPath_splitOn t
        rw [hsegs] at hs
        rw [hmore, joinPath_cons, List.cons.injEq] at ht
        refine ⟨segs, a, b, more, hsegs, rfl, ?_⟩
        apply joinPath_injective
        · exact fun seg hseg => not_mem_of_mem_splitOn hseg
        · intro seg hseg
          have ha : '/' ∉ a :=
            not_mem_of_mem_splitOn (s := s) (by simp [hsegs])
          have hb : '/' ∉ b :=
            not_mem_of_mem_splitOn (s := t) (by simp [hmore])
          rcases List.mem_append.mp hseg with hmem | hmem
          · exact not_mem_of_mem_splitOn (s := s) (by simp [hsegs, hmem])
          · rcases List.mem_cons.mp hmem with hmid | hmem
            · rw [hmid, List.mem_append, not_or]
              exact ⟨ha, hb⟩
            · exact not_mem_of_mem_splitOn (s := t) (by simp [hmore, hmem])
        · calc joinPath ((s ++ t).splitOn '/')
            _ = ('/' :: s) ++ t := by rw [joinPath_splitOn, List.cons_append]
            _ = joinPath (segs ++ [a]) ++ (b ++ joinPath more) := by
                rw [hs, ht.right]
            _ = joinPath (segs ++ (a ++ b) :: more) := by
                simp [joinPath_append]

theorem splitOn_cons_plain {c : Char} (hc : c ≠ '/') (s : JsString) :
    exists seg more, s.splitOn '/' = seg :: more ∧
      (c :: s).splitOn '/' = (c :: seg) :: more := by
  cases hs : s.splitOn '/' with
  | nil => exact absurd hs (List.splitOn_ne_nil '/' s)
  | cons seg more =>
      refine ⟨seg, more, rfl, ?_⟩
      rw [List.splitOn_cons_eq_if_modifyHead, if_neg (by simpa using hc), hs]
      rfl

theorem eq_of_toLower {c d : Char} (h : c.toLower = d)
    (hd : d.isAlpha = false) : c = d := by
  by_cases hascii : c.toNat < 128
  · have hkind := @CaseMapping.of_ascii
      (fun c => c.toLower = c ∨ c.toLower.isAlpha = true) (by decide) c hascii
    rcases hkind with hsame | halpha
    · exact hsame.symm.trans h
    · rw [h, hd] at halpha
      exact absurd halpha Bool.false_ne_true
  · rw [CaseMapping.toLower_of_not_ascii (Nat.le_of_not_lt hascii)] at h
    exact h

theorem eq_of_map_toLower {s t : JsString} (h : s.map Char.toLower = t)
    (ht : t.all (fun c => c.isAlpha = false) = true) : s = t := by
  induction s generalizing t with
  | nil => exact h
  | cons c s ih =>
      subst h
      rw [List.map_cons, List.all_cons, Bool.and_eq_true,
        decide_eq_true_eq] at ht
      rw [List.map_cons, ← ih rfl ht.right, ← eq_of_toLower rfl ht.left]

theorem Normal.map_toLower {seg : JsString} (h : Normal seg) :
    Normal (seg.map Char.toLower) := by
  refine ⟨?_, ?_, ?_, ?_⟩
  · exact fun hnil => h.nonempty (List.map_eq_nil_iff.mp hnil)
  · exact fun hdot => h.dot (eq_of_map_toLower hdot (by decide))
  · exact fun hdots => h.dots (eq_of_map_toLower hdots (by decide))
  · intro hmem
    rcases List.mem_map.mp hmem with ⟨c, hc, hslash⟩
    exact h.oneSegment (eq_of_toLower hslash (by decide) ▸ hc)

theorem splitOn_map_toLower (s : JsString) :
    (s.map Char.toLower).splitOn '/' =
      (s.splitOn '/').map (List.map Char.toLower) := by
  have hjoin : forall segs : List JsString,
      joinPath (segs.map (List.map Char.toLower)) =
        (joinPath segs).map Char.toLower := by
    intro segs
    induction segs with
    | nil => rfl
    | cons seg rest ih =>
        rw [List.map_cons, joinPath_cons, joinPath_cons, ih, List.map_cons,
          List.map_append]
        rfl
  apply joinPath_injective
  · exact fun seg hseg => not_mem_of_mem_splitOn hseg
  · intro seg hseg hslash
    rcases List.mem_map.mp hseg with ⟨raw, hraw, rfl⟩
    rcases List.mem_map.mp hslash with ⟨c, hc, heq⟩
    exact not_mem_of_mem_splitOn hraw (eq_of_toLower heq (by decide) ▸ hc)
  · rw [joinPath_splitOn, hjoin, joinPath_splitOn]
    rfl

theorem tail_normal {segs : List JsString} {left right : JsString}
    (h : forall seg, seg ∈ segs -> Normal seg)
    (hpath : joinPath segs = left ++ right) :
    forall seg, seg ∈ (right.splitOn '/').tail -> Normal seg := by
  rcases splitOn_append left right with ⟨as, a, b, bs, _, hright, hboth⟩
  have hsegs : [] :: segs = as ++ (a ++ b) :: bs := by
    rw [← hboth, ← hpath, splitOn_joinPath (fun seg hseg => (h seg hseg).oneSegment)]
  intro seg hseg
  rw [hright, List.tail_cons] at hseg
  cases as with
  | nil => exact h seg ((List.cons.inj hsegs).right ▸ hseg)
  | cons first as =>
      apply h seg
      rw [(List.cons.inj hsegs).right]
      exact List.mem_append_right as (List.mem_cons_of_mem _ hseg)

theorem normal_replaced {segs : List JsString} {left right : JsString}
    {c : Char} (h : forall seg, seg ∈ segs -> Normal seg) (d : Char)
    (hpath : joinPath segs = left ++ c :: right) (hleft : left ≠ [])
    (hdot : d ≠ '.') (hslash : d ≠ '/') :
    exists others, others ≠ [] ∧ (forall seg, seg ∈ others -> Normal seg) ∧
      joinPath others = left ++ d :: right := by
  have hplain : forall seg, seg ∈ segs -> '/' ∉ seg :=
    fun seg hseg => (h seg hseg).oneSegment
  cases segs with
  | nil => exact absurd hpath.symm (by simp [hleft])
  | cons seg rest =>
      cases left with
      | nil => exact absurd rfl hleft
      | cons first left =>
          have hfirst : first = '/' := by
            rw [joinPath_cons, List.cons_append] at hpath
            exact (List.cons.inj hpath).left.symm
          subst hfirst
          have htail := @tail_normal _ ('/' :: left ++ [c]) right h
            (by rw [hpath]; simp)
          rcases splitOn_append left (c :: right) with
            ⟨as, a, b, bs, has, _, hboth⟩
          have hsegs : seg :: rest = as ++ (a ++ b) :: bs := by
            rw [← hboth]
            apply joinPath_injective hplain
              (fun seg hseg => not_mem_of_mem_splitOn hseg)
            rw [joinPath_splitOn, hpath, List.cons_append]
          rcases splitOn_cons_plain hslash right with ⟨f, fs, hfs, hright⟩
          rcases splitOn_append left (d :: right) with
            ⟨as', a', b', bs', has', hbs', hother⟩
          rcases List.append_inj' (has.symm.trans has') rfl with ⟨hsame, _⟩
          rw [hright, List.cons.injEq] at hbs'
          refine ⟨(left ++ d :: right).splitOn '/', List.splitOn_ne_nil _ _, ?_,
            by rw [joinPath_splitOn, List.cons_append]⟩
          intro other hmem
          have hone := not_mem_of_mem_splitOn hmem
          rw [hother] at hmem
          rcases List.mem_append.mp hmem with hx | hx
          · apply h other
            rw [hsegs, hsame]
            exact List.mem_append_left _ hx
          · rcases List.mem_cons.mp hx with hmid | hx
            · refine @normal_of_mem _ d ?_ hdot hone
              rw [hmid, ← hbs'.left]
              simp
            · apply htail other
              rw [hfs, List.tail_cons, hbs'.right]
              exact hx

end PosixPath

end Foundation

namespace Keys

open Foundation

variable {lower : CaseMapping}

/-!
## Text that is in lower case
-/

def IsAscii (s : JsString) : Prop :=
  forall c, c ∈ s -> c.toNat < 128

def IsLower (s : JsString) : Prop :=
  forall c, c ∈ s -> c.toNat < 128 ∧ c.toLower = c

theorem IsLower.eq (lower : CaseMapping) {s : JsString} (h : IsLower s) :
    lower.toLowerCase s = s := by
  rw [lower.ascii s (fun c hc => (h c hc).left)]
  calc s.map Char.toLower
    _ = s.map id := List.map_congr_left (fun c hc => (h c hc).right)
    _ = s := List.map_id s

theorem isLower_map_toLower {s : JsString} (h : IsAscii s) :
    IsLower (s.map Char.toLower) := by
  intro c hc
  rcases List.mem_map.mp hc with ⟨d, hd, rfl⟩
  exact @CaseMapping.of_ascii
    (fun d => d.toLower.toNat < 128 ∧ d.toLower.toLower = d.toLower)
    (by decide) d (h d hd)

theorem isLower_append {s t : JsString} :
    IsLower (s ++ t) <-> IsLower s ∧ IsLower t := by
  simp only [IsLower, List.mem_append]
  constructor
  · intro h
    exact ⟨fun c hc => h c (Or.inl hc), fun c hc => h c (Or.inr hc)⟩
  · intro hgiven c hcase
    rcases hcase with hc | hc
    · exact hgiven.left c hc
    · exact hgiven.right c hc

theorem isLower_joinPath {segs : List JsString} :
    IsLower (PosixPath.joinPath segs) <-> forall seg, seg ∈ segs -> IsLower seg := by
  induction segs with
  | nil => simp [IsLower]
  | cons seg rest ih =>
      have hslash : IsLower ['/'] := by
        intro c hc
        rw [List.mem_singleton.mp hc]
        decide
      rw [PosixPath.joinPath_cons, ← List.singleton_append, isLower_append,
        isLower_append, ih]
      simp [hslash]

/-!
## The path part of a path
-/

def keptSegments (path : JsString) : List JsString :=
  PosixPath.resolveDots false [] (path.splitOn '/')

theorem keptSegments_normal (path : JsString) :
    forall seg, seg ∈ keptSegments path -> PosixPath.Normal seg :=
  PosixPath.resolveDots_all_normal (by simp)
    (fun _ hseg => PosixPath.not_mem_of_mem_splitOn hseg)

theorem requestPath_rooted (lower : CaseMapping) {path : JsString}
    (h : path.head? = some '/') :
    requestPath lower path =
      PosixPath.joinPath ((keptSegments path).map lower.toLowerCase) := by
  have hne : path ≠ [] := by
    intro hnil
    rw [hnil] at h
    exact absurd h (by simp)
  have hnormal := keptSegments_normal path
  by_cases hsegs : keptSegments path = []
  · have hroot : PosixPath.normalize path = ['/'] := by
      unfold keptSegments at hsegs
      simp [PosixPath.normalize, hne, h, hsegs]
    rw [requestPath, hroot, hsegs, stripTrailingSlash,
      lower.ascii ['/'] (List.all_iff_forall_prop.mp (by decide))]
    rfl
  · let more : List JsString := if path.getLast? = some '/' then [[]] else []
    have hmore : more = [] ∨ more = [[]] := by
      by_cases hlast : path.getLast? = some '/'
      · exact Or.inr (if_pos hlast)
      · exact Or.inl (if_neg hlast)
    have hpath : PosixPath.normalize path =
        PosixPath.joinPath (keptSegments path ++ more) := by
      cases hkept : keptSegments path with
      | nil => exact absurd hkept hsegs
      | cons seg rest =>
          have hbody : ['/'].intercalate (seg :: rest) ≠ [] := by
            intro hempty
            have hseg := (hnormal seg (by simp [hkept])).nonempty
            cases rest <;> simp_all
          unfold keptSegments at hkept
          unfold PosixPath.normalize
          rw [if_neg hne, h]
          simp only [decide_true, Bool.not_true, hkept, if_neg hbody, if_true]
          rw [PosixPath.joinPath_append, PosixPath.joinPath_eq_intercalate]
          by_cases hlast : path.getLast? = some '/'
          · simp [more, hlast]
          · simp [more, hlast]
    calc requestPath lower path
      _ = requestPath lower (PosixPath.joinPath (keptSegments path ++ more)) := by
          rw [requestPath, requestPath, hpath,
            PosixPath.normalize_joinPath hsegs hnormal hmore]
      _ = PosixPath.joinPath ((keptSegments path).map lower.toLowerCase) :=
          requestPath_joinPath lower hsegs hnormal hmore

theorem requestPath_settled (lower : CaseMapping) {segs : List JsString}
    (hne : segs ≠ [])
    (h : forall seg, seg ∈ segs -> PosixPath.Normal seg)
    (hlower : IsLower (PosixPath.joinPath segs)) :
    requestPath lower (PosixPath.joinPath segs) = PosixPath.joinPath segs := by
  have hpath := @requestPath_joinPath lower segs [] hne h (Or.inl rfl)
  rw [List.append_nil] at hpath
  rw [hpath, ← PosixPath.toLowerCase_joinPath, hlower.eq]

theorem requestPath_relative (lower : CaseMapping) {path : JsString}
    (h : forall seg, seg ∈ path.splitOn '/' -> PosixPath.Normal seg)
    (hlower : IsLower path) : requestPath lower path = path := by
  have hne : path ≠ [] := by
    intro hnil
    exact (h [] (by simp [hnil])).nonempty rfl
  have hhead : path.head? ≠ some '/' := by
    intro hslash
    rcases List.head?_eq_some_iff.mp hslash with ⟨rest, hrest⟩
    exact (h [] (by simp [hrest, PosixPath.splitOn_slash_cons])).nonempty rfl
  have hlast : path.getLast? ≠ some '/' := by
    have hjoin := @PosixPath.joinPath_getLast (path.splitOn '/')
      (fun seg hseg => ⟨(h seg hseg).nonempty, (h seg hseg).oneSegment⟩)
    rw [PosixPath.joinPath_splitOn, List.getLast?_cons] at hjoin
    intro hslash
    rw [hslash] at hjoin
    exact hjoin rfl
  have hresolve : PosixPath.resolveDots true [] (path.splitOn '/') =
      path.splitOn '/' := by
    have hall := @PosixPath.resolveDots_normal true [] _ [] h
    rw [List.append_nil] at hall
    rw [hall]
    simp [PosixPath.resolveDots]
  have hnormal : PosixPath.normalize path = path := by
    unfold PosixPath.normalize
    simp only [hne, hhead, hlast, decide_false, Bool.not_false, hresolve,
      List.intercalate_splitOn, if_false]
  rw [requestPath, hnormal, hlower.eq, stripTrailingSlash, if_neg hlast]

theorem requestPath_segments (lower : CaseMapping) {path : JsString}
    (hroot : path.head? = some '/') (hascii : IsAscii path) :
    exists segs, requestPath lower path = PosixPath.joinPath segs ∧
      (forall seg, seg ∈ segs -> PosixPath.Normal seg) ∧
      IsLower (PosixPath.joinPath segs) := by
  have hsegs : forall seg, seg ∈ keptSegments path -> IsAscii seg := by
    intro seg hseg c hc
    rcases PosixPath.mem_resolveDots hseg with hnil | hsplit
    · exact absurd hnil List.not_mem_nil
    · exact hascii c (PosixPath.mem_of_mem_splitOn hsplit hc)
  refine ⟨_, requestPath_rooted lower hroot, ?_, ?_⟩
  · intro seg hseg
    rcases List.mem_map.mp hseg with ⟨raw, hraw, rfl⟩
    rw [lower.ascii raw (hsegs raw hraw)]
    exact (keptSegments_normal path raw hraw).map_toLower
  · rw [isLower_joinPath]
    intro seg hseg
    rcases List.mem_map.mp hseg with ⟨raw, hraw, rfl⟩
    rw [lower.ascii raw (hsegs raw hraw)]
    exact isLower_map_toLower (hsegs raw hraw)

/-- What is behind the last dot segment is kept. -/
theorem requestPath_kept (lower : CaseMapping) {left right : JsString}
    {c : Char} (hroot : (left ++ c :: right).head? = some '/')
    (hascii : IsAscii (left ++ c :: right)) (hslash : c ≠ '/')
    (hdot : '.' ∉ c :: right)
    (hsegs : forall seg, seg ∈ (right.splitOn '/').tail -> seg ≠ []) :
    exists front, requestPath lower (left ++ c :: right) =
      front ++ (c :: right).map Char.toLower := by
  cases left with
  | nil => exact absurd (Option.some.inj hroot) hslash
  | cons first left =>
      rw [show first = '/' from Option.some.inj hroot, List.cons_append] at *
      rcases PosixPath.splitOn_append left (c :: right) with
        ⟨as, a, b, bs, has, hbs, hboth⟩
      rcases PosixPath.splitOn_cons_plain hslash right with ⟨f, fs, hfs, hright⟩
      rw [hright, List.cons.injEq] at hbs
      rw [← hbs.left, ← hbs.right] at hboth
      rw [hfs, List.tail_cons] at hsegs
      have hmore : forall seg, seg ∈ (a ++ c :: f) :: fs ->
          PosixPath.Normal seg := by
        intro seg hseg
        have hone : '/' ∉ seg := by
          apply PosixPath.not_mem_of_mem_splitOn (s := left ++ c :: right)
          rw [hboth]
          exact List.mem_append_right as hseg
        rcases List.mem_cons.mp hseg with hfirst | hrest
        · refine @PosixPath.normal_of_mem _ c (by simp [hfirst]) ?_ hone
          exact fun heq => hdot (by simp [heq])
        · cases seg with
          | nil => exact absurd rfl (hsegs [] hrest)
          | cons d seg =>
              refine @PosixPath.normal_of_mem _ d (by simp) ?_ hone
              intro heq
              apply hdot
              apply List.mem_cons_of_mem
              apply @PosixPath.mem_of_mem_splitOn '/' '.' right (d :: seg)
              · rw [hfs]
                exact List.mem_cons_of_mem f hrest
              · simp [heq]
      have hkept : keptSegments ('/' :: (left ++ c :: right)) =
          PosixPath.resolveDots false [] ([] :: as) ++ (a ++ c :: f) :: fs := by
        rw [keptSegments, PosixPath.splitOn_slash_cons, hboth,
          ← List.cons_append, PosixPath.resolveDots_append_normal hmore]
      have hjoin : PosixPath.joinPath ((a ++ c :: f) :: fs) =
          '/' :: (a ++ c :: right) := by
        have hpath := PosixPath.joinPath_splitOn (c :: right)
        rw [hright, PosixPath.joinPath_cons, List.cons.injEq] at hpath
        rw [PosixPath.joinPath_cons, List.append_assoc, hpath.right]
      have hend : IsAscii (PosixPath.joinPath ((a ++ c :: f) :: fs)) := by
        intro d hd
        rw [hjoin] at hd
        apply hascii d
        rcases List.mem_cons.mp hd with hslash | hd
        · exact List.mem_cons.mpr (Or.inl hslash)
        · rcases List.mem_append.mp hd with ha | hrest
          · have hleft : d ∈ left :=
              @PosixPath.mem_of_mem_splitOn '/' d left a (by simp [has]) ha
            simp [hleft]
          · exact List.mem_cons_of_mem _ (List.mem_append_right left hrest)
      rw [requestPath_rooted lower hroot, hkept, List.map_append,
        PosixPath.joinPath_append, ← PosixPath.toLowerCase_joinPath lower (_ :: _),
        lower.ascii _ hend, hjoin]
      refine ⟨PosixPath.joinPath ((PosixPath.resolveDots false []
        ([] :: as)).map lower.toLowerCase) ++ ('/' :: a).map Char.toLower, ?_⟩
      simp

end Keys
end RestCache
