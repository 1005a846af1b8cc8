import RestCache.Foundation.PosixPath
import RestCache.Keys.AuthKey
import RestCache.Keys.QueryParamsKey

/-!
# The cache key

A key is `path?query&headers&auth`.  The path holds no question mark and the
query and header parts hold no ampersand, so a key is taken apart in one way.
-/

namespace RestCache
namespace Keys

open Foundation

structure CacheKeysConfig where
  useHeaders : List JsString
  useQueryParams : UseQueryParams
  useAuth : Bool

structure Context where
  path : JsString
  path_noQuery : '?' ∉ path
  query : Query
  header : JsString -> Option JsString
  auth : Option AuthState

variable (lower : CaseMapping)

def headerPair (ctx : Context) (name : JsString) :
    Option (JsString × JsString) :=
  let header := lower.toLowerCase name
  (ctx.header header).map fun value =>
    (escapeKeyName header, escapeKeyValue value)

def generateHeadersKey (ctx : Context) (useHeaders : List JsString) :
    JsString :=
  UniqueDecoding.joinPairs '=' ',' (useHeaders.filterMap (headerPair lower ctx))

def stripTrailingSlash (path : JsString) : JsString :=
  if path.getLast? = some '/' then path.dropLast else path

def requestPath (path : JsString) : JsString :=
  stripTrailingSlash (lower.toLowerCase (PosixPath.normalize path))

def generateCacheKey (ctx : Context) (keys : CacheKeysConfig) : JsString :=
  let querySuffix :=
    if keys.useQueryParams ≠ UseQueryParams.bool false then
      generateQueryParamsKey ctx.query keys.useQueryParams
    else
      []
  let headersSuffix :=
    if keys.useHeaders.length > 0 then
      generateHeadersKey lower ctx keys.useHeaders
    else
      []
  let authSuffix :=
    if keys.useAuth then generateAuthKey ctx.auth else []
  requestPath lower ctx.path ++ '?' ::
    (querySuffix ++ '&' :: (headersSuffix ++ '&' :: authSuffix))

/-!
## The parts of a key
-/

variable {lower : CaseMapping}

theorem requestPath_not_question {path : JsString} (h : '?' ∉ path) :
    '?' ∉ requestPath lower path := by
  have hnormal : '?' ∉ PosixPath.normalize path := by
    intro hmem
    rcases PosixPath.mem_normalize hmem with hdot | hslash | hpath
    · exact absurd hdot (by decide)
    · exact absurd hslash (by decide)
    · exact h hpath
  have hlower := lower.not_mem_toLowerCase hnormal (by decide) (by decide)
  unfold requestPath stripTrailingSlash
  split
  · exact fun hmem => hlower (List.dropLast_subset _ hmem)
  · exact hlower

theorem headerPair_eq_some {ctx : Context} {name : JsString}
    {p : JsString × JsString} (h : headerPair lower ctx name = some p) :
    exists value, ctx.header (lower.toLowerCase name) = some value ∧
      p = (escapeKeyName (lower.toLowerCase name), escapeKeyValue value) := by
  unfold headerPair at h
  simp only [Option.map_eq_some_iff] at h
  rcases h with ⟨value, hvalue, hp⟩
  exact ⟨value, hvalue, hp.symm⟩

theorem generateHeadersKey_not_amp (ctx : Context)
    (useHeaders : List JsString) :
    '&' ∉ generateHeadersKey lower ctx useHeaders := by
  apply UniqueDecoding.not_mem_joinPairs (by decide) (by decide)
  intro p hp
  rcases List.mem_filterMap.mp hp with ⟨name, _, hname⟩
  rcases headerPair_eq_some hname with ⟨value, _, rfl⟩
  constructor
  · exact not_mem_escapeKeyName _ (by decide)
  · exact not_mem_escapeKeyValue _ (by decide)

theorem generateHeadersKey_eq_iff {a b : Context} {useHeaders : List JsString} :
    generateHeadersKey lower a useHeaders =
        generateHeadersKey lower b useHeaders <->
      forall name, name ∈ useHeaders ->
        a.header (lower.toLowerCase name) =
          b.header (lower.toLowerCase name) := by
  have hclean : forall ctx : Context,
      forall p, p ∈ useHeaders.filterMap (headerPair lower ctx) ->
        UniqueDecoding.CleanPair '=' ',' p := by
    intro ctx p hp
    rcases List.mem_filterMap.mp hp with ⟨name, _, hname⟩
    rcases headerPair_eq_some hname with ⟨value, _, rfl⟩
    refine ⟨?_, ?_, ?_⟩
    · exact not_mem_escapeKeyName _ (by decide)
    · exact not_mem_escapeKeyName _ (by decide)
    · exact not_mem_escapeKeyValue _ (by decide)
  have hcarry : forall c d : Context,
      useHeaders.filterMap (headerPair lower c) =
        useHeaders.filterMap (headerPair lower d) ->
      forall name value, name ∈ useHeaders ->
        c.header (lower.toLowerCase name) = some value ->
        d.header (lower.toLowerCase name) = some value := by
    intro c d hpairs name value hname hvalue
    have hmem : (escapeKeyName (lower.toLowerCase name),
        escapeKeyValue value) ∈ useHeaders.filterMap (headerPair lower d) := by
      rw [← hpairs]
      refine List.mem_filterMap.mpr ⟨name, hname, ?_⟩
      simp [headerPair, hvalue]
    rcases List.mem_filterMap.mp hmem with ⟨other, _, hother⟩
    rcases headerPair_eq_some hother with ⟨found, hfound, hpair⟩
    injection hpair with hn hv
    rw [escapeKeyName_injective hn, escapeKeyValue_injective hv]
    exact hfound
  constructor
  · intro h name hname
    have hpairs := UniqueDecoding.joinPairs_inj (by decide)
      (hclean a) (hclean b) h
    cases ha : a.header (lower.toLowerCase name) with
    | some value => exact (hcarry a b hpairs name value hname ha).symm
    | none =>
        cases hb : b.header (lower.toLowerCase name) with
        | none => rfl
        | some value =>
            have hback := hcarry b a hpairs.symm name value hname hb
            rw [ha] at hback
            exact absurd hback (by simp)
  · intro h
    unfold generateHeadersKey
    congr 1
    apply List.filterMap_congr
    intro name hname
    unfold headerPair
    simp only [h name hname]

/-!
## What a key distinguishes
-/

/-- The two requests agree on everything the configuration keys on. -/
structure SameForKeys (lower : CaseMapping) (keys : CacheKeysConfig)
    (a b : Context) : Prop where
  path : requestPath lower a.path = requestPath lower b.path
  query : forall name, keys.useQueryParams.selects name = true ->
    a.query.get name = b.query.get name
  headers : forall name, name ∈ keys.useHeaders ->
    a.header (lower.toLowerCase name) = b.header (lower.toLowerCase name)
  auth : keys.useAuth = true -> generateAuthKey a.auth = generateAuthKey b.auth

theorem generateCacheKey_eq_parts (ctx : Context) (keys : CacheKeysConfig) :
    generateCacheKey lower ctx keys =
      requestPath lower ctx.path ++ '?' ::
        (generateQueryParamsKey ctx.query keys.useQueryParams ++ '&' ::
          (generateHeadersKey lower ctx keys.useHeaders ++ '&' ::
            (if keys.useAuth then generateAuthKey ctx.auth else []))) := by
  have hquery : (if keys.useQueryParams ≠ UseQueryParams.bool false then
      generateQueryParamsKey ctx.query keys.useQueryParams else []) =
        generateQueryParamsKey ctx.query keys.useQueryParams := by
    split
    · rfl
    · rename_i hfalse
      rw [not_not.mp hfalse]
      rfl
  have hheaders : (if keys.useHeaders.length > 0 then
      generateHeadersKey lower ctx keys.useHeaders else []) =
        generateHeadersKey lower ctx keys.useHeaders := by
    split
    · rfl
    · rename_i hnone
      rw [List.eq_nil_of_length_eq_zero (Nat.eq_zero_of_not_pos hnone)]
      rfl
  unfold generateCacheKey
  rw [hquery, hheaders]

theorem sameForKeys_of_key_eq {keys : CacheKeysConfig} {a b : Context}
    (h : generateCacheKey lower a keys = generateCacheKey lower b keys) :
    SameForKeys lower keys a b := by
  rw [generateCacheKey_eq_parts, generateCacheKey_eq_parts] at h
  rcases UniqueDecoding.split_first
    (requestPath_not_question a.path_noQuery)
    (requestPath_not_question b.path_noQuery) h with ⟨hpath, h⟩
  rcases UniqueDecoding.split_first
    (generateQueryParamsKey_not_amp a.query _)
    (generateQueryParamsKey_not_amp b.query _) h with ⟨hquery, h⟩
  rcases UniqueDecoding.split_first
    (generateHeadersKey_not_amp a _)
    (generateHeadersKey_not_amp b _) h with ⟨hheaders, hauth⟩
  refine ⟨hpath, generateQueryParamsKey_eq_iff.mp hquery,
    generateHeadersKey_eq_iff.mp hheaders, ?_⟩
  intro huse
  simpa [huse] using hauth

theorem key_eq_of_sameForKeys {keys : CacheKeysConfig} {a b : Context}
    (h : SameForKeys lower keys a b) :
    generateCacheKey lower a keys = generateCacheKey lower b keys := by
  rw [generateCacheKey_eq_parts, generateCacheKey_eq_parts, h.path,
    generateQueryParamsKey_eq_iff.mpr h.query,
    generateHeadersKey_eq_iff.mpr h.headers]
  cases huse : keys.useAuth with
  | false => rfl
  | true => simp [h.auth huse]

/--
Two requests share a key exactly when they agree on the path, on every selected
parameter, on every configured header and, where it is keyed on, on the caller.
-/
theorem generateCacheKey_eq_iff (lower : CaseMapping) (keys : CacheKeysConfig)
    (a b : Context) :
    generateCacheKey lower a keys = generateCacheKey lower b keys <->
      SameForKeys lower keys a b := by
  constructor
  · exact sameForKeys_of_key_eq
  · exact key_eq_of_sameForKeys

/-!
## Requests in normal form
-/

theorem not_slash_toLowerCase (lower : CaseMapping) {seg : JsString}
    (h : '/' ∉ seg) : '/' ∉ lower.toLowerCase seg :=
  lower.not_mem_toLowerCase h (by decide) (by decide)

/-- The path part of a request in normal form, up to a slash at its end. -/
theorem requestPath_joinPath (lower : CaseMapping) {segs more : List JsString}
    (hne : segs ≠ [])
    (h : forall seg, seg ∈ segs -> PosixPath.Normal seg)
    (hmore : more = [] ∨ more = [[]]) :
    requestPath lower (PosixPath.joinPath (segs ++ more)) =
      PosixPath.joinPath (segs.map lower.toLowerCase) := by
  have hlast := @PosixPath.joinPath_getLast (segs.map lower.toLowerCase) (by
    intro seg hseg
    rcases List.mem_map.mp hseg with ⟨raw, hraw, rfl⟩
    exact ⟨fun hnil => (h raw hraw).nonempty (lower.toLowerCase_eq_nil hnil),
      not_slash_toLowerCase lower (h raw hraw).oneSegment⟩)
  unfold requestPath stripTrailingSlash
  rw [PosixPath.normalize_joinPath hne h hmore,
    PosixPath.toLowerCase_joinPath, List.map_append,
    PosixPath.joinPath_append]
  rcases hmore with rfl | rfl
  · rw [List.map_nil, PosixPath.joinPath_nil, List.append_nil, if_neg hlast]
  · rw [List.map_singleton, lower.toLowerCase_nil, PosixPath.joinPath_cons,
      PosixPath.joinPath_nil, List.nil_append, if_pos List.getLast?_concat,
      List.dropLast_concat]

/-!
## The identity at the end

The identity part is whatever follows the second ampersand, for requests of any
two routes and whatever is appended to a key.
-/

def authPart (ctx : Context) (keys : CacheKeysConfig) : JsString :=
  if keys.useAuth then generateAuthKey ctx.auth else []

theorem authPart_of_key_append {a b : Context} {keys keys' : CacheKeysConfig}
    {tail : JsString}
    (h : generateCacheKey lower a keys =
      generateCacheKey lower b keys' ++ tail) :
    authPart a keys = authPart b keys' ++ tail := by
  rw [generateCacheKey_eq_parts, generateCacheKey_eq_parts] at h
  simp only [List.append_assoc, List.cons_append] at h
  rcases UniqueDecoding.split_first
    (requestPath_not_question a.path_noQuery)
    (requestPath_not_question b.path_noQuery) h with ⟨_, h⟩
  rcases UniqueDecoding.split_first
    (generateQueryParamsKey_not_amp a.query _)
    (generateQueryParamsKey_not_amp b.query _) h with ⟨_, h⟩
  rcases UniqueDecoding.split_first
    (generateHeadersKey_not_amp a _)
    (generateHeadersKey_not_amp b _) h with ⟨_, hauth⟩
  exact hauth

example : generateCacheKey CaseMapping.latin1
    { path := "/api/categories//slug/News/".toList
      path_noQuery := by decide
      query :=
        { params := [("locale".toList, JsValue.str "x,populate=a".toList),
            ("q".toList, JsValue.null)]
          valid := JsValue.Valid.obj (by unfold JsValue.OwnKeys; decide)
            (by simp [JsValue.Valid.str, JsValue.Valid.null]) }
      header := fun _ => none
      auth := none }
    { useHeaders := [], useQueryParams := UseQueryParams.bool true,
      useAuth := true } =
    "/api/categories/slug/news?locale=x%2Cpopulate%3Da,q=%&&unauthenticated".toList := by
  rfl

end Keys
end RestCache
