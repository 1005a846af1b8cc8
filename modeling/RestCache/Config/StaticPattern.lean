import RestCache.Config.StaticSource
import RestCache.Config.PurgeReach

/-!
# The expression of a route without parameters

A route path without parameters is read as plain text by the router and as the
source of an expression by a purge.  Both agree exactly on the paths without
characters that mean something in an expression and without empty segments.
-/

namespace RestCache
namespace Config

open Foundation
open RegExpSource
open RowPiece
open Router
open Keys

def staticRoute (path : JsString) : RoutePath :=
  (path.splitOn '/').tail.map Segment.text

/-- The router takes the first of its routes that accepts the path. -/
structure Dispatches (lower : CaseMapping) (table : List RoutePath) (n : Nat)
    (path : JsString) : Prop where
  taken : exists route, table[n]? = some route ∧ Accepts lower route path
  first : forall m, m < n -> forall route, table[m]? = some route ->
    ¬ Accepts lower route path

/-- The expression matches the keys of the route and no key of another path. -/
structure MatchesLiterally (lower : CaseMapping) (path : JsString)
    (pattern : Pattern) : Prop where
  dispatched : forall table n ctx keys,
    table[n]? = some (staticRoute path) -> Dispatches lower table n ctx.path ->
    pattern.test (generateCacheKey lower ctx keys) = true
  others : forall ctx keys,
    requestPath lower ctx.path ≠ requestPath lower path ->
    pattern.test (generateCacheKey lower ctx keys) = false

def ReadLiterally (lower : CaseMapping) (route : CacheRouteConfig)
    (params : Option RouteParams) (wildcard : Bool) : Prop :=
  exists pattern,
    getRouteRegExp lower route params wildcard = Except.ok [pattern] ∧
      MatchesLiterally lower route.path pattern

structure IsPlainPath (path : JsString) : Prop where
  characters : forall c, c ∈ path -> c ∉ sourceSpecials
  segments : forall seg, seg ∈ (path.splitOn '/').tail -> seg ≠ []

variable {lower : CaseMapping}

/-!
## Paths that a route of text accepts
-/

theorem spells_texts {segs : List JsString} {s : JsString} :
    Spells lower (segs.map Segment.text) s <->
      s = PosixPath.joinPath (segs.map lower.toLowerCase) := by
  induction segs generalizing s with
  | nil => exact Iff.rfl
  | cons seg rest ih =>
      constructor
      · intro hgiven
        rcases hgiven with ⟨x, y, hs, hx, hy⟩
        rw [hs, show x = '/' :: lower.toLowerCase seg from hx, ih.mp hy]
        simp
      · intro hs
        exact ⟨_, _, by simpa using hs, rfl, ih.mpr rfl⟩

theorem accepts_staticRoute {path other : JsString}
    (h : path.head? = some '/') :
    Accepts lower (staticRoute path) other <->
      lower.toLowerCase other = lower.toLowerCase path ∨
        lower.toLowerCase other = lower.toLowerCase path ++ ['/'] := by
  rcases List.head?_eq_some_iff.mp h with ⟨rest, rfl⟩
  have hspells : forall s, Spells lower (staticRoute ('/' :: rest)) s <->
      s = lower.toLowerCase ('/' :: rest) := by
    intro s
    rw [staticRoute, PosixPath.splitOn_slash_cons, List.tail_cons, spells_texts,
      ← PosixPath.toLowerCase_joinPath, PosixPath.joinPath_splitOn]
  unfold Accepts
  simp only [hspells]
  constructor
  · intro hcase
    rcases hcase with heq | ⟨text, heq, htext⟩
    · exact Or.inl heq
    · exact Or.inr (by rw [heq, htext])
  · intro hcase
    rcases hcase with heq | heq
    · exact Or.inl heq
    · exact Or.inr ⟨_, heq, rfl⟩

theorem dispatches_alone {route : RoutePath} {path : JsString}
    (h : Accepts lower route path) : Dispatches lower [route] 0 path :=
  ⟨⟨route, rfl, h⟩, fun _ hm => absurd hm (Nat.not_lt_zero _)⟩

/-!
## Plain paths
-/

theorem requestPath_accepted {segs more : List JsString} {path : JsString}
    (hne : segs ≠ [])
    (h : forall seg, seg ∈ segs -> PosixPath.Normal seg ∧ '.' ∉ seg)
    (hmore : more = [] ∨ more = [[]])
    (hpath : lower.toLowerCase path = PosixPath.joinPath
      (segs.map lower.toLowerCase ++ more)) :
    requestPath lower path =
      PosixPath.joinPath (segs.map lower.toLowerCase) := by
  have hsplit : (path.splitOn '/').map lower.toLowerCase =
      [] :: (segs.map lower.toLowerCase ++ more) := by
    apply PosixPath.joinPath_injective
    · intro seg hseg
      rcases List.mem_map.mp hseg with ⟨raw, hraw, rfl⟩
      exact not_slash_toLowerCase lower (PosixPath.not_mem_of_mem_splitOn hraw)
    · intro seg hseg
      simp only [List.mem_cons, List.mem_append, List.mem_map] at hseg
      rcases hseg with rfl | ⟨raw, hraw, rfl⟩ | hseg
      · exact List.not_mem_nil
      · exact not_slash_toLowerCase lower (h raw hraw).left.oneSegment
      · rcases hmore with rfl | rfl
        · exact absurd hseg List.not_mem_nil
        · rw [List.mem_singleton.mp hseg]
          exact List.not_mem_nil
    · rw [← PosixPath.toLowerCase_joinPath, PosixPath.joinPath_splitOn,
        lower.toLowerCase_slash_cons, hpath, PosixPath.joinPath_cons,
        List.nil_append]
  rcases List.map_eq_cons_iff.mp hsplit with ⟨first, others, hparts, hfirst, hothers⟩
  rcases List.map_eq_append_iff.mp hothers with ⟨raws, ends, rfl, hraws, hends⟩
  have hends : ends = [] ∨ ends = [[]] := by
    rcases hmore with hnil | hone
    · rw [hnil] at hends
      exact Or.inl (List.map_eq_nil_iff.mp hends)
    · rw [hone] at hends
      rcases List.map_eq_singleton_iff.mp hends with ⟨raw, rfl, hraw⟩
      exact Or.inr (by rw [lower.toLowerCase_eq_nil hraw])
  have hjoin : path = PosixPath.joinPath (raws ++ ends) := by
    have hwhole := PosixPath.joinPath_splitOn path
    rw [hparts, lower.toLowerCase_eq_nil hfirst, PosixPath.joinPath_cons,
      List.nil_append, List.cons.injEq] at hwhole
    exact hwhole.right.symm
  have hnormal : forall raw, raw ∈ raws -> PosixPath.Normal raw := by
    intro raw hraw
    have hmem : lower.toLowerCase raw ∈ segs.map lower.toLowerCase :=
      hraws ▸ List.mem_map_of_mem hraw
    rcases List.mem_map.mp hmem with ⟨seg, hseg, hsame⟩
    rcases h seg hseg with ⟨hnormal, hdot⟩
    have hplain : '.' ∉ lower.toLowerCase raw := by
      rw [← hsame]
      exact lower.not_mem_toLowerCase hdot (by decide) (by decide)
    refine ⟨?_, ?_, ?_, ?_⟩
    · intro hnil
      rw [hnil, lower.toLowerCase_nil] at hsame
      exact hnormal.nonempty (lower.toLowerCase_eq_nil hsame)
    · intro heq
      rw [heq, lower.ascii ['.'] (List.all_iff_forall_prop.mp (by decide))] at hplain
      exact hplain (by decide)
    · intro heq
      rw [heq, lower.ascii ['.', '.']
        (List.all_iff_forall_prop.mp (by decide))] at hplain
      exact hplain (by decide)
    · exact PosixPath.not_mem_of_mem_splitOn (s := path) (by simp [hparts, hraw])
  have hne' : raws ≠ [] := by
    intro hnil
    rw [hnil, List.map_nil] at hraws
    exact hne (List.map_eq_nil_iff.mp hraws.symm)
  rw [hjoin, requestPath_joinPath lower hne' hnormal hends, hraws]

theorem plainPath_segments {path : JsString} (hroot : path.head? = some '/')
    (h : IsPlainPath path) : exists segs, segs ≠ [] ∧
      path = PosixPath.joinPath segs ∧
      forall seg, seg ∈ segs -> PosixPath.Normal seg ∧ '.' ∉ seg := by
  rcases List.head?_eq_some_iff.mp hroot with ⟨rest, rfl⟩
  have hsegments := h.segments
  rw [PosixPath.splitOn_slash_cons, List.tail_cons] at hsegments
  refine ⟨rest.splitOn '/', List.splitOn_ne_nil _ _,
    (PosixPath.joinPath_splitOn rest).symm, ?_⟩
  intro seg hseg
  have hdot : '.' ∉ seg := by
    intro hmem
    have hpath := PosixPath.mem_of_mem_splitOn hseg hmem
    exact h.characters '.' (List.mem_cons_of_mem _ hpath) (by decide)
  cases seg with
  | nil => exact absurd rfl (hsegments [] hseg)
  | cons c seg =>
      refine ⟨@PosixPath.normal_of_mem _ c List.mem_cons_self ?_
        (PosixPath.not_mem_of_mem_splitOn hseg), hdot⟩
      exact fun heq => hdot (by simp [heq])

theorem textChar_of_literal {c : Char} (h : isLiteral c = true)
    (hplain : c ∉ sourceSpecials) : textChar c.toLower = ([ofChar c.toLower], Mode.text) := by
  have hkind := @CaseMapping.of_ascii
    (fun c => isLiteral c = true -> c ∉ sourceSpecials ->
      c.toLower ∉ sourceSpecials)
    (by decide) c (isLiteral_ascii h) h hplain
  have hset : c.toLower ≠ '[' := fun heq => hkind (by rw [heq]; decide)
  rcases textChar_literal (isLiteral_toLower h) hset with ⟨p, hp, hcase⟩
  rcases hcase with hmark | ⟨_, hliteral⟩
  · exact absurd hmark.special hkind
  · rw [hp, hliteral]
    rfl

theorem getRouteRegExp_static {route : CacheRouteConfig}
    (hnames : route.paramNames = [])
    (hliteral : route.path.all isLiteral = true) {params : Option RouteParams}
    {wildcard : Bool} :
    getRouteRegExp lower route params wildcard =
      (compile ('^' :: route.path.map Char.toLower ++ "\\?".toList)).map
        (fun pattern => [pattern]) := by
  unfold getRouteRegExp routeSources
  rw [if_pos hnames, anchored, lowerCasePattern_literal lower hliteral,
    List.mapM_cons]
  cases compile ('^' :: route.path.map Char.toLower ++ "\\?".toList) with
  | error e => rfl
  | ok pattern => rfl

theorem readLiterally_of_plain {route : CacheRouteConfig}
    (hnames : route.paramNames = []) (hroot : route.path.head? = some '/')
    (hliteral : route.path.all isLiteral = true)
    (h : IsPlainPath route.path) (params : Option RouteParams)
    (wildcard : Bool) : ReadLiterally lower route params wildcard := by
  have hreads : Reads (route.path.map Char.toLower)
      (Meaning.ofSet (fun mid => mid = route.path.map Char.toLower)) := by
    apply reads_text
    intro c hc
    rcases List.mem_map.mp hc with ⟨d, hd, rfl⟩
    exact textChar_of_literal (List.all_eq_true.mp hliteral d hd) (h.characters d hd)
  rcases compile_anchored hreads with ⟨pattern, hcompile, htest⟩
  rcases plainPath_segments hroot h with ⟨segs, hne, hpath, hsegs⟩
  have hascii : IsAscii route.path :=
    fun c hc => isLiteral_ascii (List.all_eq_true.mp hliteral c hc)
  have hlowered : PosixPath.joinPath (segs.map lower.toLowerCase) =
      route.path.map Char.toLower := by
    rw [← PosixPath.toLowerCase_joinPath, ← hpath, lower.ascii _ hascii]
  have hself : requestPath lower route.path = route.path.map Char.toLower := by
    rw [← hlowered]
    have hjoin := @requestPath_joinPath lower segs [] hne
      (fun seg hseg => (hsegs seg hseg).left) (Or.inl rfl)
    rw [List.append_nil, ← hpath] at hjoin
    exact hjoin
  refine ⟨pattern, ?_, ?_, ?_⟩
  · rw [getRouteRegExp_static hnames hliteral, hcompile]
    rfl
  · intro table n ctx keys hroute hdispatch
    rcases hdispatch.taken with ⟨taken, htaken, haccepts⟩
    rw [hroute, Option.some.injEq] at htaken
    rw [← htaken, accepts_staticRoute hroot, lower.ascii _ hascii, ← hlowered] at haccepts
    have hrequest : requestPath lower ctx.path =
        PosixPath.joinPath (segs.map lower.toLowerCase) := by
      rcases haccepts with heq | heq
      · exact @requestPath_accepted lower segs [] _ hne hsegs (Or.inl rfl)
          (by rw [heq, List.append_nil])
      · exact @requestPath_accepted lower segs [[]] _ hne hsegs (Or.inr rfl)
          (by rw [heq, PosixPath.joinPath_append]; rfl)
    exact (htest _).mpr ⟨_, _, rfl, hrequest.trans hlowered⟩
  · intro ctx keys hother
    rw [Bool.eq_false_iff]
    intro hmatch
    rcases (htest _).mp hmatch with ⟨mid, after, htext, hmid⟩
    have hquestion : '?' ∉ mid := by
      rw [hmid, ← hself]
      apply requestPath_not_question
      intro hmem
      exact absurd (List.all_eq_true.mp hliteral '?' hmem) (by decide)
    have hparts := UniqueDecoding.split_first
      (requestPath_not_question ctx.path_noQuery) hquestion htext
    exact hother (by rw [hparts.left, hself]; exact hmid)

/-!
## Requests with a long key
-/

def padding (n : Nat) : JsString :=
  "&x=".toList ++ List.replicate n 'x' ++ ['&']

def paddedRequest (path : JsString) (h : '?' ∉ path) (n : Nat) : Context where
  path
  path_noQuery := h
  query := Query.empty
  header _ := some (List.replicate n 'x')
  auth := none

def paddedKeys : CacheKeysConfig where
  useHeaders := ["x".toList]
  useQueryParams := UseQueryParams.bool false
  useAuth := false

theorem padded_key (lower : CaseMapping) (path : JsString) (h : '?' ∉ path)
    (n : Nat) : generateCacheKey lower (paddedRequest path h n) paddedKeys =
      requestPath lower path ++ '?' :: padding n := by
  have hname : escapeKeyName (lower.toLowerCase "x".toList) = "x".toList := by
    rw [lower.ascii _ (List.all_iff_forall_prop.mp (by decide))]
    decide
  have hvalue : escapeKeyValue (List.replicate n 'x') =
      List.replicate n 'x' := by
    have hplain : hasStructure VALUE_STRUCTURE (List.replicate n 'x') =
        false := by
      cases n with
      | zero => rfl
      | succ n =>
          have hany : (List.replicate (n + 1) 'x').any (· ∈ VALUE_STRUCTURE) =
              false := by
            rw [List.any_replicate]
            simp [VALUE_STRUCTURE]
          rw [hasStructure, hany]
          rfl
    rw [escapeKeyValue, escapeUnless, hplain]
    rfl
  have hpair : headerPair lower (paddedRequest path h n) "x".toList =
      some ("x".toList, List.replicate n 'x') := by
    show some (escapeKeyName (lower.toLowerCase "x".toList),
      escapeKeyValue (List.replicate n 'x')) = _
    rw [hname, hvalue]
  have hheaders : generateHeadersKey lower (paddedRequest path h n)
      ["x".toList] = "x=".toList ++ List.replicate n 'x' := by
    rw [generateHeadersKey, List.filterMap_cons, hpair, List.filterMap_nil]
    exact UniqueDecoding.joinPairs_single _ _ _
  show requestPath lower path ++ '?' :: ([] ++ '&' ::
    (generateHeadersKey lower (paddedRequest path h n) ["x".toList] ++
      '&' :: [])) = _
  rw [hheaders]
  rfl

theorem mem_padding {n : Nat} {c : Char} (h : c ∈ padding n) :
    c = '&' ∨ c = 'x' ∨ c = '=' := by
  simp only [padding, List.mem_append, List.mem_replicate] at h
  rcases h with (h | ⟨_, h⟩) | h
  · simp at h
    tauto
  · exact Or.inr (Or.inl h)
  · exact Or.inl (List.mem_singleton.mp h)

theorem padding_length (n : Nat) : n < (padding n).length := by
  rw [padding, List.length_append, List.length_append, List.length_replicate]
  exact Nat.lt_succ_of_le (Nat.le_add_left n _)

/-!
## What a path that is matched literally is like
-/

structure Agreement (lower : CaseMapping) (path : JsString)
    (pieces : List RowPiece) (segs : List JsString) (pattern : Pattern) :
    Prop where
  root : path.head? = some '/'
  readable : path.all isLiteral = true
  matched : MatchesLiterally lower path pattern
  cut : Cut (path.map Char.toLower) pieces
  closing : RowPiece.closing ∉ pieces
  test : forall text, pattern.test text = true <->
    exists before mid after rest, text = before ++ (mid ++ after) ∧
      Starts (row pieces) rest ∧ Spans rest before mid after
  keyPath : requestPath lower path = PosixPath.joinPath segs
  normal : forall seg, seg ∈ segs -> PosixPath.Normal seg
  isLower : IsLower (PosixPath.joinPath segs)

theorem exists_agreement {route : CacheRouteConfig}
    (hnames : route.paramNames = []) (hroot : route.path.head? = some '/')
    (hliteral : route.path.all isLiteral = true) {params : Option RouteParams}
    {wildcard : Bool} (h : ReadLiterally lower route params wildcard) :
    exists pieces segs pattern,
      Agreement lower route.path pieces segs pattern := by
  rcases h with ⟨pattern, hget, hmatched⟩
  rw [getRouteRegExp_static hnames hliteral] at hget
  have hascii : IsAscii route.path :=
    fun c hc => isLiteral_ascii (List.all_eq_true.mp hliteral c hc)
  have hlowered : (route.path.map Char.toLower).all isLiteral = true := by
    rw [List.all_map, List.all_eq_true]
    exact fun c hc => isLiteral_toLower (List.all_eq_true.mp hliteral c hc)
  cases hcompile : compile
      ('^' :: route.path.map Char.toLower ++ "\\?".toList) with
  | error e =>
      rw [hcompile] at hget
      exact absurd hget (by simp [Except.map])
  | ok found =>
      rw [hcompile] at hget
      have hfound : found = pattern := by
        simpa [Except.map] using hget
      rw [hfound] at hcompile
      rcases cut_of_compile hlowered hcompile with
        ⟨pieces, hcut, hclosing, htest⟩
      rcases requestPath_segments lower hroot hascii with
        ⟨segs, hkey, hnormal, hlower⟩
      exact ⟨pieces, segs, pattern, hroot, hliteral, hmatched, hcut, hclosing,
        htest, hkey, hnormal, hlower⟩

namespace Agreement

variable {path : JsString} {pieces : List RowPiece} {segs : List JsString}
  {pattern : Pattern}

theorem no_question (h : Agreement lower path pieces segs pattern) :
    '?' ∉ PosixPath.joinPath segs := by
  rw [← h.keyPath]
  apply requestPath_not_question
  intro hmem
  exact absurd (List.all_eq_true.mp h.readable '?' hmem) (by decide)

/-- A run over the key of another path is ruled out. -/
theorem only (h : Agreement lower path pieces segs pattern)
    {other : JsString} (hquestion : '?' ∉ other)
    (hself : requestPath lower other = other) (n : Nat) (before : JsString)
    {mid after : JsString} {rest : List RowPiece}
    (htext : other ++ '?' :: padding n = before ++ (mid ++ after))
    (hstarts : Starts (row pieces) rest) (hspans : Spans rest before mid after) :
    other = PosixPath.joinPath segs := by
  by_contra hne
  have hother := h.matched.others (paddedRequest other hquestion n) paddedKeys
    (by
      show requestPath lower other ≠ _
      rw [hself, h.keyPath]
      exact hne)
  rw [padded_key, hself, Bool.eq_false_iff] at hother
  exact hother ((h.test _).mpr ⟨before, mid, after, rest, htext, hstarts, hspans⟩)

theorem isLower_of_decide {s : JsString}
    (h : s.all (fun c => c.toNat < 128 && c.toLower = c) = true) : IsLower s := by
  intro c hc
  simpa using List.all_eq_true.mp h c hc

/-- Longer paths have keys of their own. -/
theorem before_nil (h : Agreement lower path pieces segs pattern) {n : Nat}
    {before mid after : JsString} {rest : List RowPiece}
    (htext : PosixPath.joinPath segs ++ '?' :: padding n =
      before ++ (mid ++ after))
    (hstarts : Starts (row pieces) rest)
    (hspans : Spans rest before mid after) : before = [] := by
  by_contra hne
  have hjoin : PosixPath.joinPath (['x'] :: segs) =
      "/x".toList ++ PosixPath.joinPath segs := by
    rw [PosixPath.joinPath_cons]
    rfl
  have hself : requestPath lower (PosixPath.joinPath (['x'] :: segs)) =
      PosixPath.joinPath (['x'] :: segs) := by
    apply requestPath_settled lower (by simp)
    · intro seg hseg
      rcases List.mem_cons.mp hseg with heq | hmem
      · exact @PosixPath.normal_of_mem _ 'x' (by simp [heq]) (by decide)
          (by simp [heq])
      · exact h.normal seg hmem
    · rw [hjoin, isLower_append]
      exact ⟨isLower_of_decide (by decide), h.isLower⟩
  have hsame := h.only (by rw [hjoin]; simp [h.no_question]) hself n
    ("/x".toList ++ before) (by rw [hjoin, List.append_assoc, htext, List.append_assoc]) hstarts
    (spans_moved hne (by simp) hspans)
  have hlength := congrArg List.length hsame
  rw [hjoin, List.length_append] at hlength
  simp at hlength

theorem not_within (h : Agreement lower path pieces segs pattern)
    {mid more after : JsString} {rest : List RowPiece}
    (hpath : PosixPath.joinPath segs = mid ++ more)
    (hafter : after ≠ []) (hstarts : Starts (row pieces) rest)
    (hspans : Spans rest [] mid after) : False := by
  have hjoin : PosixPath.joinPath (segs ++ [['x']]) =
      PosixPath.joinPath segs ++ "/x".toList := by
    rw [PosixPath.joinPath_append]
    rfl
  have hself : requestPath lower (PosixPath.joinPath (segs ++ [['x']])) =
      PosixPath.joinPath (segs ++ [['x']]) := by
    apply requestPath_settled lower (by simp)
    · intro seg hseg
      rcases List.mem_append.mp hseg with hmem | heq
      · exact h.normal seg hmem
      · exact @PosixPath.normal_of_mem _ 'x' (by simp [List.mem_singleton.mp heq])
          (by decide) (by simp [List.mem_singleton.mp heq])
    · rw [hjoin, isLower_append]
      exact ⟨h.isLower, isLower_of_decide (by decide)⟩
  have hsame := h.only (by rw [hjoin]; simp [h.no_question]) hself 0 []
    (by rw [hjoin, hpath]; simp) hstarts
    (spans_followed hafter (more ++ "/x".toList ++ '?' :: padding 0) hspans)
  have hlength := congrArg List.length hsame
  rw [hjoin, List.length_append] at hlength
  simp at hlength

/-- The path with one character changed is a path of its own. -/
theorem changed (h : Agreement lower path pieces segs pattern)
    {left right : JsString} {c d : Char}
    (hpath : PosixPath.joinPath segs = left ++ c :: right)
    (hd : d ≠ '.' ∧ d ≠ '/' ∧ d ≠ '?' ∧ d.toNat < 128 ∧ d.toLower = d) :
    '?' ∉ left ++ d :: right ∧
      requestPath lower (left ++ d :: right) = left ++ d :: right := by
  rcases hd with ⟨hdot, hslash, hquestion, hascii, hcase⟩
  have hnone := h.no_question
  have hlower := h.isLower
  rw [hpath] at hnone hlower
  have hchanged : IsLower (left ++ d :: right) := by
    intro e he
    rcases List.mem_append.mp he with hmem | hmem
    · exact hlower e (List.mem_append_left _ hmem)
    · rcases List.mem_cons.mp hmem with heq | hmem
      · rw [heq]
        exact ⟨hascii, hcase⟩
      · exact hlower e (List.mem_append_right _ (List.mem_cons_of_mem c hmem))
  refine ⟨?_, ?_⟩
  · intro hmem
    rcases List.mem_append.mp hmem with hmem | hmem
    · exact hnone (List.mem_append_left _ hmem)
    · rcases List.mem_cons.mp hmem with heq | hmem
      · exact hquestion heq.symm
      · exact hnone (List.mem_append_right _ (List.mem_cons_of_mem c hmem))
  · by_cases hleft : left = []
    · subst hleft
      apply requestPath_relative lower _ hchanged
      rcases PosixPath.splitOn_cons_plain hslash right with
        ⟨seg, more, hright, hsplit⟩
      have htail := PosixPath.tail_normal h.normal
        (show PosixPath.joinPath segs = [c] ++ right from hpath)
      rw [hright, List.tail_cons] at htail
      rw [List.nil_append, hsplit]
      intro other hmem
      rcases List.mem_cons.mp hmem with heq | hmem
      · refine @PosixPath.normal_of_mem _ d (by simp [heq]) hdot ?_
        apply PosixPath.not_mem_of_mem_splitOn (s := d :: right)
        rw [hsplit, heq]
        exact List.mem_cons_self
      · exact htail other hmem
    · rcases PosixPath.normal_replaced h.normal d hpath hleft hdot hslash with
        ⟨others, hne, hnormal, hjoin⟩
      rw [← hjoin] at hchanged ⊢
      exact requestPath_settled lower hne hnormal hchanged

/-- No set of the path takes the question mark behind the key's path. -/
theorem question_behind (h : Agreement lower path pieces segs pattern)
    {left right : List RowPiece} {accepts : Char -> Bool}
    {y after : JsString} {n : Nat}
    (hpadding : padding n = y ++ after) (hafter : after ≠ [])
    (hbar : bar ∉ left)
    (hstarts : Starts (row pieces) (left ++ set accepts :: right))
    (hset : set accepts ∈ pieces) (hquestion : accepts '?' = true)
    (hleft : Spans left [] (PosixPath.joinPath segs) ('?' :: y ++ after))
    (hright : Spans right (PosixPath.joinPath segs ++ ['?']) y after) :
    False := by
  have hmore : exists c, accepts c = true ∧ (c = '@' ∨ c = DEL) := by
    rcases cut_question h.cut hset hquestion with hat | hdel
    · exact ⟨'@', hat, Or.inl rfl⟩
    · exact ⟨DEL, hdel, Or.inr rfl⟩
  rcases hmore with ⟨c, hc, hcase⟩
  have hkind : c ≠ '.' ∧ c ≠ '/' ∧ c ≠ '?' ∧ c.toNat < 128 ∧ c.toLower = c := by
    rcases hcase with rfl | rfl
    · decide
    · decide
  rcases hkind with ⟨hdot, hslash, hnot, hascii, hlower⟩
  have hmem : forall d, d ∈ y -> d = '&' ∨ d = 'x' ∨ d = '=' :=
    fun d hd => mem_padding (n := n) (by rw [hpadding]; simp [hd])
  have hplain : forall d, d ∈ c :: y ->
      d ≠ '/' ∧ d ≠ '?' ∧ d.toNat < 128 ∧ d.toLower = d := by
    intro d hd
    rcases List.mem_cons.mp hd with rfl | hd
    · exact ⟨hslash, hnot, hascii, hlower⟩
    · rcases hmem d hd with rfl | rfl | rfl <;> decide
  have hone : '/' ∉ c :: y := fun hmem => (hplain '/' hmem).left rfl
  have hend : IsLower (c :: y) := fun d hd => (hplain d hd).right.right
  have hself : requestPath lower (PosixPath.joinPath segs ++ c :: y) =
      PosixPath.joinPath segs ++ c :: y := by
    rcases List.eq_nil_or_concat' segs with hnil | ⟨front, last, hsegs⟩
    · rw [hnil, PosixPath.joinPath_nil, List.nil_append]
      apply requestPath_relative lower _ hend
      intro seg hseg
      rw [List.splitOn_eq_singleton hone, List.mem_singleton] at hseg
      rw [hseg]
      exact @PosixPath.normal_of_mem _ c (by simp) hdot hone
    · have hjoin : PosixPath.joinPath segs ++ c :: y =
          PosixPath.joinPath (front ++ [last ++ c :: y]) := by
        rw [hsegs]
        simp [PosixPath.joinPath_append]
      have hlowered := isLower_append.mpr ⟨h.isLower, hend⟩
      rw [hjoin] at hlowered ⊢
      apply requestPath_settled lower (by simp) _ hlowered
      intro seg hseg
      have hnormal := h.normal
      rw [hsegs] at hnormal
      rcases List.mem_append.mp hseg with hseg | hseg
      · exact hnormal seg (by simp [hseg])
      · rw [List.mem_singleton.mp hseg]
        refine @PosixPath.normal_of_mem _ c (by simp) hdot ?_
        rw [List.mem_append, not_or]
        exact ⟨(hnormal last (by simp)).oneSegment, hone⟩
  have hbehind : Spans right (PosixPath.joinPath segs ++ [c]) y
      ('?' :: padding n) :=
    spans_followed hafter _ (spans_moved (by simp) (by simp) hright)
  have hnone : '?' ∉ PosixPath.joinPath segs ++ c :: y := by
    rw [List.mem_append, not_or]
    exact ⟨h.no_question, fun hmem => (hplain '?' hmem).right.left rfl⟩
  have hsame := h.only hnone hself n [] rfl hstarts
    (spans_append hbar (spans_followed (by simp) _ hleft)
      ⟨c, y, rfl, hc, hbehind⟩)
  have hlength := congrArg List.length hsame
  rw [List.length_append] at hlength
  simp at hlength

/-- The request for the path itself is matched along the end of the row. -/
theorem run_over_path (h : Agreement lower path pieces segs pattern) :
    exists left, bar ∉ left ∧ Starts (start :: pieces) left ∧
      Starts (row pieces) (left ++ [set (literal '?')]) ∧
      Spans left [] (PosixPath.joinPath segs) ['?'] := by
  let n := pieces.length + 2
  have hquestion : '?' ∉ path := by
    intro hmem
    exact absurd (List.all_eq_true.mp h.readable '?' hmem) (by decide)
  have hmatch := h.matched.dispatched [staticRoute path] 0
    (paddedRequest path hquestion n) paddedKeys rfl
    (dispatches_alone ((accepts_staticRoute h.root).mpr (Or.inl rfl)))
  rw [padded_key, h.keyPath, h.test] at hmatch
  rcases hmatch with ⟨before, mid, after, rest, htext, hstarts, hspans⟩
  have hbefore := h.before_nil htext hstarts hspans
  subst hbefore
  have hafter : after ≠ [] := by
    intro hnil
    have hmid := spans_length hspans
    have hrest := (starts_sublist hstarts).length_le
    have hpadding := padding_length n
    have hlength := congrArg List.length htext
    simp only [hnil, row, List.length_append, List.length_cons,
      List.length_nil] at hrest hlength
    omega
  rw [List.nil_append] at htext
  rcases List.append_eq_append_iff.mp htext with
    ⟨more, hmid, hpad⟩ | ⟨more, hpath, _⟩
  · cases more with
    | nil =>
        rw [List.append_nil] at hmid
        rw [hmid] at hspans
        exact (h.not_within (List.append_nil _).symm hafter hstarts hspans).elim
    | cons c y =>
        rcases List.cons.inj hpad with ⟨hc, hpadding⟩
        subst hc
        rw [hmid] at hspans
        rcases spans_split hspans with
          ⟨left, accepts, right, hrest, hbar, haccepts, hleft, hright⟩
        rw [List.nil_append] at hright
        rcases @starts_snoc (start :: pieces) rest (set (literal '?'))
          (by simp) hstarts with ⟨front, hfront, hfirst⟩
        rcases List.eq_nil_or_concat' right with hnil | ⟨right', last, hlast⟩
        · have hrow : front = left ∧ [set (literal '?')] = [set accepts] :=
            List.append_inj' (by rw [← hfront, hrest, hnil]) rfl
          rw [hrow.left] at hfirst
          rw [hrest, hnil, ← hrow.right] at hstarts
          exact ⟨left, hbar, hfirst, hstarts, spans_followed (by simp) _ hleft⟩
        · have hrow : front = left ++ set accepts :: right' ∧
              [set (literal '?')] = [last] :=
            List.append_inj' (by rw [← hfront, hrest, hlast]; simp) rfl
          have hset : set accepts ∈ pieces := by
            have hmem : set accepts ∈ start :: pieces :=
              (starts_sublist hfirst).mem (by rw [hrow.left]; simp)
            simpa using hmem
          rw [hrest] at hstarts
          exact (h.question_behind hpadding hafter hbar hstarts hset haccepts
            hleft hright).elim
  · exact (h.not_within hpath hafter hstarts hspans).elim

/-- A set in the middle takes only the character that is there. -/
theorem set_takes_one (h : Agreement lower path pieces segs pattern)
    {front : List RowPiece} {accepts : Char -> Bool} {x text : JsString}
    {c d : Char} (hbar : bar ∉ front ++ set accepts :: literals text)
    (hstarts : Starts (row pieces)
      (front ++ set accepts :: literals text ++ [set (literal '?')]))
    (hfront : Spans front [] x ((c :: text) ++ ['?']))
    (hpath : PosixPath.joinPath segs = x ++ c :: text)
    (hd : d ≠ '.' ∧ d ≠ '/' ∧ d ≠ '?' ∧ d.toNat < 128 ∧ d.toLower = d)
    (haccepts : accepts d = true) : d = c := by
  rcases h.changed hpath hd with ⟨hquestion, hself⟩
  have hnobar : bar ∉ front :=
    fun hmem => hbar (List.mem_append_left _ hmem)
  have hmiddle : forall after : JsString, Spans (set accepts :: literals text)
      ([] ++ x) (d :: text) after :=
    fun after => ⟨d, text, rfl, haccepts, spans_literals.mpr rfl⟩
  have hrun : Spans
      (front ++ set accepts :: literals text ++ [set (literal '?')]) []
      ((x ++ d :: text) ++ ['?']) (padding 0) := by
    apply spans_append hbar
    · exact spans_append hnobar (spans_followed (by simp) _ hfront) (hmiddle _)
    · exact ⟨'?', [], rfl, by simp [literal], rfl⟩
  have hsame := h.only hquestion hself 0 [] (by simp) hstarts hrun
  rw [hpath] at hsame
  exact (List.cons.inj (List.append_cancel_left hsame)).left

/-- Behind the last dot the key has the path's own text. -/
theorem kept (h : Agreement lower path pieces segs pattern)
    {front text x : JsString} {c : Char}
    (hpath : path.map Char.toLower = front ++ c :: text)
    (halpha : c.isAlpha = false) (hslash : c ≠ '/') (hdot : '.' ∉ c :: text)
    (hkey : PosixPath.joinPath segs = x ++ text) :
    exists y, PosixPath.joinPath segs = y ++ c :: text := by
  rcases List.map_eq_append_iff.mp hpath with ⟨left, rest, hparts, _, hrest⟩
  rcases List.map_eq_cons_iff.mp hrest with ⟨d, right, hcons, hd, hright⟩
  have hsame : d = c := PosixPath.eq_of_toLower hd halpha
  subst hcons hsame hparts
  have hascii : IsAscii (left ++ d :: right) :=
    fun e he => isLiteral_ascii (List.all_eq_true.mp h.readable e he)
  have hsegments : forall seg, seg ∈ (right.splitOn '/').tail -> seg ≠ [] := by
    intro seg hseg hnil
    have hmem : seg.map Char.toLower ∈ (text.splitOn '/').tail := by
      rw [← hright, PosixPath.splitOn_map_toLower, ← List.map_tail]
      exact List.mem_map_of_mem hseg
    exact (PosixPath.tail_normal h.normal hkey _ hmem).nonempty (by simp [hnil])
  have hnodot : '.' ∉ d :: right := by
    intro hmem
    apply hdot
    rw [← hrest]
    exact List.mem_map_of_mem (f := Char.toLower) hmem
  rcases requestPath_kept lower h.root hascii hslash hnodot hsegments with
    ⟨y, hy⟩
  exact ⟨y, by rw [← h.keyPath, hy, hrest]⟩

theorem not_marked (h : Agreement lower path pieces segs pattern)
    {front text : JsString} {c : Char} {more : List RowPiece} {p : RowPiece}
    (hpath : path.map Char.toLower = front ++ c :: text)
    (hpieces : pieces = more ++ p :: literals text) (hp : EndsIn c p)
    (htext : forall d, d ∈ text -> d ∉ sourceSpecials) : False := by
  rcases h.run_over_path with ⟨left, hbar, hfirst, hstarts, hspans⟩
  have hnodot : '.' ∉ text := fun hmem => htext '.' hmem (by decide)
  have hrow : start :: pieces = (start :: more) ++ p :: literals text := by
    rw [hpieces, List.cons_append]
  rw [hrow] at hfirst
  -- The key is not the text alone: the character before it is kept too.
  have hwhole : c.isAlpha = false -> c ≠ '/' -> c ≠ '.' ->
      PosixPath.joinPath segs = text -> False := by
    intro halpha hslash hdot hkey
    rcases h.kept (x := []) hpath halpha hslash
      (by simp [hnodot, hdot.symm]) hkey with ⟨y, hy⟩
    have hlength := congrArg List.length (hy.symm.trans hkey)
    rw [List.length_append, List.length_cons] at hlength
    omega
  by_cases hpbar : p = bar
  · rw [hpbar] at hp hfirst
    have hleft := starts_lastBar hfirst (bar_not_mem_literals text) hbar
    rw [hleft] at hspans
    cases hp with
    | mark hmark =>
        cases hmark with
        | bar =>
            exact hwhole (by decide) (by decide) (by decide)
              (spans_literals.mp hspans)
  · have htail : bar ∉ p :: literals text := by
      rw [List.mem_cons, not_or]
      exact ⟨fun heq => hpbar heq.symm, bar_not_mem_literals text⟩
    rcases starts_suffix hfirst htail with ⟨z, hleft⟩
    subst hleft
    have hzbar : bar ∉ z := fun hmem => hbar (List.mem_append_left _ hmem)
    rcases spans_append_split hzbar hspans with ⟨x, y, hxy, hz, hy⟩
    rw [List.nil_append] at hy
    cases hp with
    | mark hmark =>
        cases hmark with
        | any =>
            rcases hy with ⟨e, y, rfl, _, hy⟩
            rw [spans_literals.mp hy] at hxy hz
            have hx := h.set_takes_one (d := 'x') hbar hstarts hz hxy
              (by decide) (by decide)
            have hy := h.set_takes_one (d := 'y') hbar hstarts hz hxy
              (by decide) (by decide)
            exact absurd (hx.trans hy.symm) (by decide)
        | stop => exact absurd hy.right.left (by simp)
        | start =>
            rw [hy.left, List.nil_append, spans_literals.mp hy.right] at hxy
            exact hwhole (by decide) (by decide) (by decide) hxy
        | bar => exact absurd rfl hpbar
        | closing => exact h.closing (by simp [hpieces])
    | brackets htakes =>
        rcases hy with ⟨e, y, rfl, haccepts, hy⟩
        rw [spans_literals.mp hy] at hxy hz
        rcases h.kept (x := x ++ [e]) hpath (by decide) (by decide)
          (by simp [hnodot]) (by rw [hxy]; simp) with ⟨w, hw⟩
        have hsame : e :: text = ']' :: text :=
          (List.append_inj' (hxy.symm.trans hw) rfl).right
        rw [(List.cons.inj hsame).left] at haccepts hxy hz
        have hclose := h.set_takes_one (d := '\\') hbar hstarts hz hxy
          (by decide) (htakes.bracket haccepts)
        exact absurd hclose (by decide)

theorem isPlainPath (h : Agreement lower path pieces segs pattern) :
    IsPlainPath path := by
  rcases cut_cases h.cut with
    ⟨hpieces, hplain⟩ | ⟨front, c, text, more, p, hpath, hpieces, hp, htext⟩
  · rcases h.run_over_path with ⟨left, _, hfirst, _, hspans⟩
    have hleft : left = start :: pieces := by
      rcases hfirst with heq | ⟨l, hl⟩
      · exact heq
      · have hmem : bar ∈ start :: pieces := by
          rw [hl]
          simp
        rw [hpieces] at hmem
        simp [bar_not_mem_literals] at hmem
    rw [hleft, hpieces] at hspans
    have hkey := spans_literals.mp hspans.right
    constructor
    · intro c hc hspecial
      have hsame : c.toLower = c := by
        have hall : forall d, d ∈ sourceSpecials -> d.toLower = d :=
          List.all_iff_forall_prop.mp (by decide)
        exact hall c hspecial
      exact hplain c (hsame ▸ List.mem_map_of_mem hc) hspecial
    · intro seg hseg hnil
      have hsplit := PosixPath.splitOn_map_toLower path
      rw [← hkey, PosixPath.splitOn_joinPath
        (fun seg hseg => (h.normal seg hseg).oneSegment)] at hsplit
      have hmem : seg.map Char.toLower ∈ segs := by
        rw [show segs = (([] : JsString) :: segs).tail from rfl, hsplit,
          ← List.map_tail]
        exact List.mem_map_of_mem hseg
      exact (h.normal _ hmem).nonempty (by simp [hnil])
  · exact (h.not_marked hpath hpieces hp htext).elim

end Agreement

/--
A purge reads the path of a route without parameters literally exactly when the
path has none of the characters that mean something in an expression and no
empty segment.
-/
theorem readLiterally_iff_plain (lower : CaseMapping) (route : CacheRouteConfig)
    (hnames : route.paramNames = []) (hroot : route.path.head? = some '/')
    (hliteral : route.path.all isLiteral = true) (params : Option RouteParams)
    (wildcard : Bool) :
    ReadLiterally lower route params wildcard <-> IsPlainPath route.path := by
  constructor
  · intro h
    rcases exists_agreement hnames hroot hliteral h with
      ⟨pieces, segs, pattern, hagreement⟩
    exact hagreement.isPlainPath
  · intro h
    exact readLiterally_of_plain hnames hroot hliteral h params wildcard

/-!
## A dot in a path

The expression of `/api/feed.xml` also matches the keys of `/api/feedaxml`.
-/

def staticConfigured (path : JsString) : CacheRouteConfig where
  path
  method := "GET".toList
  paramNames := []

theorem readLiterally_iff_plain_feed :
    ReadLiterally CaseMapping.latin1 (staticConfigured "/api/Feed]".toList)
      none false := by
  apply (readLiterally_iff_plain CaseMapping.latin1
    (staticConfigured "/api/Feed]".toList) rfl rfl (by decide) none false).mpr
  constructor
  · exact List.all_iff_forall_prop.mp (by decide)
  · decide

theorem otherPath_noQuery : '?' ∉ "/api/feedaxml".toList := by
  decide

theorem not_readLiterally_dot :
    ¬ forall (lower : CaseMapping) (route : CacheRouteConfig),
      route.paramNames = [] -> route.path.head? = some '/' ->
      route.path.all isLiteral = true ->
      forall params wildcard, ReadLiterally lower route params wildcard := by
  intro hall
  rcases hall CaseMapping.latin1 (staticConfigured "/api/feed.xml".toList)
    rfl rfl (by decide) none false with ⟨pattern, hget, hmatched⟩
  have hother := hmatched.others (bareRequest _ otherPath_noQuery) paddedKeys
    (by decide +kernel)
  have hfound : (patternsOf (getRouteRegExp CaseMapping.latin1
      (staticConfigured "/api/feed.xml".toList) none false)).all
        (fun found => found.test (generateCacheKey CaseMapping.latin1
          (bareRequest _ otherPath_noQuery) paddedKeys)) = true := by
    decide +kernel
  rw [hget] at hfound
  simp only [patternsOf, List.all_cons, List.all_nil, Bool.and_true] at hfound
  rw [hother] at hfound
  exact Bool.false_ne_true hfound

end Config
end RestCache
