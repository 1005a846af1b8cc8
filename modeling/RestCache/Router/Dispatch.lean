import RestCache.Keys.CacheKey

/-!
# Routing and cache keys

The router matches the raw path of a request, segment by segment and without
regard to letter case, and takes the first route that fits.  The cache key is
built from the normalised path.  Two raw paths with one normalised path may be
dispatched differently, and then they share an entry.
-/

namespace RestCache
namespace Router

open Foundation
open Keys

/-- A segment of a route path: text, `:name` or `:name+`. -/
inductive Part where
  | text (text : JsString)
  | param (name : JsString)
  | plus (name : JsString)
deriving DecidableEq

abbrev Route := List Part

structure Capture where
  name : JsString
  value : List JsString
deriving DecidableEq

/-- The route that was taken, by its place in the table. -/
structure Dispatched where
  route : Nat
  params : List Capture
deriving DecidableEq

section Matching

variable (lower : CaseMapping)

def Capture.fold (capture : Capture) : Capture :=
  { capture with value := capture.value.map lower.toLowerCase }

/-- A repeated parameter takes one more segment where the rest still fits. -/
def repeatCapture (name seg : JsString)
    (longer shorter : Option (List Capture)) : Option (List Capture) :=
  match longer with
  | some (capture :: more) =>
      some ({ capture with value := seg :: capture.value } :: more)
  | _ => shorter.map (fun more => Capture.mk name [seg] :: more)

def matchParts : Route -> List JsString -> Option (List Capture)
  | [], [] => some []
  | [], _ :: _ => none
  | _ :: _, [] => none
  | Part.text text :: rest, seg :: segs =>
      if lower.toLowerCase seg = lower.toLowerCase text then
        matchParts rest segs
      else
        none
  | Part.param name :: rest, seg :: segs =>
      if seg = [] then none
      else (matchParts rest segs).map (fun more => Capture.mk name [seg] :: more)
  | Part.plus name :: rest, seg :: segs =>
      if seg = [] then
        none
      else
        repeatCapture name seg (matchParts (Part.plus name :: rest) segs)
          (matchParts rest segs)

/-- The segments of a raw path; one slash at its end does not count. -/
def rawSegments : JsString -> Option (List JsString)
  | '/' :: rest =>
      let segs := rest.splitOn '/'
      some (if segs.getLast? = some [] then segs.dropLast else segs)
  | _ => none

def dispatchFrom : Nat -> List Route -> List JsString -> Option Dispatched
  | _, [], _ => none
  | n, route :: table, segs =>
      match matchParts lower route segs with
      | some params => some { route := n, params }
      | none => dispatchFrom (n + 1) table segs

def dispatch (table : List Route) (path : JsString) : Option Dispatched :=
  (rawSegments path).bind (dispatchFrom lower 0 table)

/--
If both requests are dispatched and share a key, they took the same route with
the same parameters up to letter case.
-/
def Isolated (table : List Route) (keys : CacheKeysConfig) (a b : Context) :
    Prop :=
  forall d e, dispatch lower table a.path = some d ->
    dispatch lower table b.path = some e ->
    generateCacheKey lower a keys = generateCacheKey lower b keys ->
    d.route = e.route ∧
      d.params.map (Capture.fold lower) = e.params.map (Capture.fold lower)

/-- The two raw paths have the same segments up to letter case. -/
def SameSegments (a b : JsString) : Prop :=
  forall as bs, rawSegments a = some as -> rawSegments b = some bs ->
    as.map lower.toLowerCase = bs.map lower.toLowerCase

end Matching

variable {lower : CaseMapping}

/-!
## Letter case

What a route does with a path does not depend on letter case.
-/

theorem toLowerCase_eq_nil_iff {s t : JsString}
    (h : lower.toLowerCase s = lower.toLowerCase t) : s = [] <-> t = [] := by
  constructor
  · intro hgiven
    subst hgiven
    rw [lower.toLowerCase_nil] at h
    exact lower.toLowerCase_eq_nil h.symm
  · intro hgiven
    subst hgiven
    rw [lower.toLowerCase_nil] at h
    exact lower.toLowerCase_eq_nil h

/-- The captures of a match, with their values in lower case. -/
def folded (lower : CaseMapping) (params : Option (List Capture)) :
    Option (List Capture) :=
  params.map (List.map (Capture.fold lower))

theorem folded_cons {name seg seg' : JsString}
    {params params' : Option (List Capture)}
    (hseg : lower.toLowerCase seg = lower.toLowerCase seg')
    (h : folded lower params = folded lower params') :
    folded lower (params.map (fun more => Capture.mk name [seg] :: more)) =
      folded lower
        (params'.map (fun more => Capture.mk name [seg'] :: more)) := by
  cases params with
  | none =>
      cases params' with
      | none => rfl
      | some more' => exact absurd h (by simp [folded])
  | some more =>
      cases params' with
      | none => exact absurd h (by simp [folded])
      | some more' =>
          simp only [folded, Option.map_some, Option.some.injEq] at h
          simp [folded, Capture.fold, hseg, h]

theorem folded_repeatCapture {name seg seg' : JsString}
    {longer longer' shorter shorter' : Option (List Capture)}
    (hseg : lower.toLowerCase seg = lower.toLowerCase seg')
    (hlonger : folded lower longer = folded lower longer')
    (hshorter : folded lower shorter = folded lower shorter') :
    folded lower (repeatCapture name seg longer shorter) =
      folded lower (repeatCapture name seg' longer' shorter') := by
  have hnew := @folded_cons lower name _ _ _ _ hseg hshorter
  cases longer with
  | none =>
      cases longer' with
      | none => exact hnew
      | some params' => exact absurd hlonger (by simp [folded])
  | some params =>
      cases longer' with
      | none => exact absurd hlonger (by simp [folded])
      | some params' =>
          simp only [folded, Option.map_some, Option.some.injEq] at hlonger
          cases params with
          | nil =>
              cases params' with
              | nil => exact hnew
              | cons capture' more' => exact absurd hlonger (by simp)
          | cons capture more =>
              cases params' with
              | nil => exact absurd hlonger (by simp)
              | cons capture' more' =>
                  rcases List.cons.inj hlonger with ⟨hcapture, hmore⟩
                  simp only [Capture.fold, Capture.mk.injEq] at hcapture
                  simp [folded, repeatCapture, Capture.fold, hcapture.left,
                    hcapture.right, hseg, hmore]

theorem matchParts_case (route : Route) {segs segs' : List JsString}
    (h : segs.map lower.toLowerCase = segs'.map lower.toLowerCase) :
    folded lower (matchParts lower route segs) =
      folded lower (matchParts lower route segs') := by
  induction segs generalizing route segs' with
  | nil =>
      have hnil : segs' = [] := by simpa using h.symm
      rw [hnil]
  | cons seg segs ih =>
      cases segs' with
      | nil => exact absurd h (by simp)
      | cons seg' segs' =>
          rcases List.cons.inj h with ⟨hseg, hsegs⟩
          have hempty := toLowerCase_eq_nil_iff hseg
          cases route with
          | nil => rfl
          | cons part rest =>
              cases part with
              | text text =>
                  simp only [matchParts, hseg]
                  split
                  · exact ih rest hsegs
                  · rfl
              | param name =>
                  simp only [matchParts, hempty]
                  split
                  · rfl
                  · exact folded_cons hseg (ih rest hsegs)
              | plus name =>
                  simp only [matchParts, hempty]
                  split
                  · rfl
                  · exact folded_repeatCapture hseg
                      (ih (Part.plus name :: rest) hsegs) (ih rest hsegs)

theorem dispatchFrom_case (table : List Route) (n : Nat)
    {segs segs' : List JsString}
    (h : segs.map lower.toLowerCase = segs'.map lower.toLowerCase)
    {d e : Dispatched} (hd : dispatchFrom lower n table segs = some d)
    (he : dispatchFrom lower n table segs' = some e) :
    d.route = e.route ∧
      d.params.map (Capture.fold lower) =
        e.params.map (Capture.fold lower) := by
  induction table generalizing n with
  | nil => exact absurd hd (by simp [dispatchFrom])
  | cons route table ih =>
      have hmatch := matchParts_case route h
      simp only [dispatchFrom] at hd he
      cases hparams : matchParts lower route segs with
      | none =>
          cases hparams' : matchParts lower route segs' with
          | none =>
              rw [hparams] at hd
              rw [hparams'] at he
              exact ih (n + 1) hd he
          | some params' =>
              rw [hparams, hparams'] at hmatch
              exact absurd hmatch (by simp [folded])
      | some params =>
          cases hparams' : matchParts lower route segs' with
          | none =>
              rw [hparams, hparams'] at hmatch
              exact absurd hmatch (by simp [folded])
          | some params' =>
              rw [hparams] at hd hmatch
              rw [hparams'] at he hmatch
              rw [← Option.some.inj hd, ← Option.some.inj he]
              exact ⟨rfl, Option.some.inj hmatch⟩

/-!
## Routes without parameters
-/

def textRoute (segs : List JsString) : Route :=
  segs.map Part.text

theorem matchParts_textRoute (texts segs : List JsString) :
    matchParts lower (textRoute texts) segs =
      if segs.map lower.toLowerCase = texts.map lower.toLowerCase then some []
      else none := by
  induction segs generalizing texts with
  | nil =>
      cases texts with
      | nil => rfl
      | cons text texts => simp [textRoute, matchParts]
  | cons seg segs ih =>
      cases texts with
      | nil => simp [textRoute, matchParts]
      | cons text texts =>
          have hrest := ih texts
          unfold textRoute at hrest ⊢
          rw [List.map_cons, matchParts, hrest]
          by_cases hseg : lower.toLowerCase seg = lower.toLowerCase text
          · simp [hseg]
          · simp [hseg]

/-!
## When requests are kept apart
-/

theorem isolated_of_sameSegments {table : List Route} {keys : CacheKeysConfig}
    {a b : Context}
    (h : SameForKeys lower keys a b -> SameSegments lower a.path b.path) :
    Isolated lower table keys a b := by
  intro d e hd he hkey
  have hsame := h (sameForKeys_of_key_eq hkey)
  rcases Option.bind_eq_some_iff.mp hd with ⟨as, has, hd⟩
  rcases Option.bind_eq_some_iff.mp he with ⟨bs, hbs, he⟩
  exact dispatchFrom_case table 0 (hsame as bs has hbs) hd he

/-- Two routes without parameters tell the two requests apart. -/
theorem sameSegments_of_isolated {keys : CacheKeysConfig} {a b : Context}
    (h : forall table, Isolated lower table keys a b)
    (hsame : SameForKeys lower keys a b) :
    SameSegments lower a.path b.path := by
  intro as bs has hbs
  by_contra hne
  have hfirst : dispatch lower [textRoute as, textRoute bs] a.path =
      some { route := 0, params := [] } := by
    rw [dispatch, has, Option.bind_some, dispatchFrom, matchParts_textRoute,
      if_pos rfl]
  have hsecond : dispatch lower [textRoute as, textRoute bs] b.path =
      some { route := 1, params := [] } := by
    rw [dispatch, hbs, Option.bind_some, dispatchFrom, matchParts_textRoute,
      if_neg (fun heq => hne heq.symm), dispatchFrom, matchParts_textRoute,
      if_pos rfl]
  have hroute := (h _ _ _ hfirst hsecond (key_eq_of_sameForKeys hsame)).left
  exact absurd hroute (by simp)

/--
Whatever the routes are, two requests are kept apart exactly if they differ in
something they are keyed on or have the same raw segments.
-/
theorem isolated_iff (lower : CaseMapping) (keys : CacheKeysConfig)
    (a b : Context) :
    (forall table, Isolated lower table keys a b) <->
      (SameForKeys lower keys a b -> SameSegments lower a.path b.path) := by
  constructor
  · exact sameSegments_of_isolated
  · intro h table
    exact isolated_of_sameSegments h

/-!
## Requests in normal form
-/

theorem rawSegments_eq {path : JsString} {segs : List JsString}
    (h : path.splitOn '/' = [] :: segs) (hne : segs ≠ []) :
    rawSegments path =
      some (if segs.getLast? = some [] then segs.dropLast else segs) := by
  cases path with
  | nil =>
      have hsegs : segs = [] := by simpa using h.symm
      exact absurd hsegs hne
  | cons c rest =>
      by_cases hc : c = '/'
      · subst hc
        have hsplit : ('/' :: rest).splitOn '/' = [] :: rest.splitOn '/' :=
          List.splitOn_append_cons_self_of_not_mem List.not_mem_nil rest
        rw [hsplit] at h
        rw [rawSegments, (List.cons.inj h).right]
      · rw [List.splitOn_cons_eq_if_modifyHead, if_neg (by simpa using hc)] at h
        cases hrest : rest.splitOn '/' with
        | nil => exact absurd hrest (List.splitOn_ne_nil '/' rest)
        | cons first others =>
            rw [hrest] at h
            exact absurd (List.cons.inj h).left (by simp)

theorem rawSegments_joinPath {segs more : List JsString} (hne : segs ≠ [])
    (h : forall seg, seg ∈ segs -> PosixPath.Normal seg)
    (hmore : more = [] ∨ more = [[]]) :
    rawSegments (PosixPath.joinPath (segs ++ more)) = some segs := by
  have hslash : forall seg, seg ∈ segs ++ more -> '/' ∉ seg := by
    intro seg hseg
    rcases List.mem_append.mp hseg with hseg | hseg
    · exact (h seg hseg).oneSegment
    · rcases hmore with rfl | rfl
      · exact absurd hseg List.not_mem_nil
      · rw [List.mem_singleton.mp hseg]
        exact List.not_mem_nil
  rw [rawSegments_eq (PosixPath.splitOn_joinPath hslash) (by simp [hne])]
  rcases hmore with rfl | rfl
  · rw [List.append_nil, if_neg]
    intro hlast
    exact (h [] (List.mem_of_getLast? hlast)).nonempty rfl
  · rw [if_pos List.getLast?_concat, List.dropLast_concat]

/-- Requests in normal form, up to a slash at the end, are always kept apart. -/
theorem isolated_of_normal {table : List Route} {keys : CacheKeysConfig}
    {a b : Context} {as bs more more' : List JsString}
    (has : as ≠ []) (hbs : bs ≠ [])
    (ha : forall seg, seg ∈ as -> PosixPath.Normal seg)
    (hb : forall seg, seg ∈ bs -> PosixPath.Normal seg)
    (hmore : more = [] ∨ more = [[]]) (hmore' : more' = [] ∨ more' = [[]])
    (hpatha : a.path = PosixPath.joinPath (as ++ more))
    (hpathb : b.path = PosixPath.joinPath (bs ++ more')) :
    Isolated lower table keys a b := by
  apply isolated_of_sameSegments
  intro hsame as' bs' has' hbs'
  have hpath := hsame.path
  rw [hpatha, hpathb, requestPath_joinPath lower has ha hmore,
    requestPath_joinPath lower hbs hb hmore'] at hpath
  rw [hpatha, rawSegments_joinPath has ha hmore, Option.some.injEq] at has'
  rw [hpathb, rawSegments_joinPath hbs hb hmore', Option.some.injEq] at hbs'
  rw [← has', ← hbs']
  refine PosixPath.joinPath_injective ?_ ?_ hpath
  · intro seg hseg
    rcases List.mem_map.mp hseg with ⟨raw, hraw, rfl⟩
    exact not_slash_toLowerCase lower (ha raw hraw).oneSegment
  · intro seg hseg
    rcases List.mem_map.mp hseg with ⟨raw, hraw, rfl⟩
    exact not_slash_toLowerCase lower (hb raw hraw).oneSegment

/-!
## A dot segment

The router gives `/api/articles/.` to the second of these routes, with the
parameter `.`, and the key of that request is the first route's.
-/

def articleRoutes : List Route :=
  [[Part.text "api".toList, Part.text "articles".toList],
    [Part.text "api".toList, Part.text "articles".toList,
      Part.param "id".toList]]

def plainKeys : CacheKeysConfig where
  useHeaders := []
  useQueryParams := UseQueryParams.bool true
  useAuth := false

def anonymous (path : JsString) (h : '?' ∉ path) : Context where
  path
  path_noQuery := h
  query := Query.empty
  header _ := none
  auth := none

theorem listPath_noQuery : '?' ∉ "/api/articles".toList := by
  decide

theorem dotPath_noQuery : '?' ∉ "/api/articles/.".toList := by
  decide

theorem not_isolated_dotSegment :
    ¬ forall lower table keys a b, Isolated lower table keys a b := by
  intro h
  have hroute := (h CaseMapping.latin1 articleRoutes plainKeys
    (anonymous _ listPath_noQuery) (anonymous _ dotPath_noQuery)
    { route := 0, params := [] }
    { route := 1, params := [Capture.mk "id".toList [".".toList]] }
    (by decide +kernel) (by decide +kernel) (by decide +kernel)).left
  exact absurd hroute (by decide)

end Router
end RestCache
