import RestCache.Config.ConstraintReturn
import RestCache.Config.InjectMiddlewares
import RestCache.Foundation.FallibleMap

/-!
# What a content type's purge reaches

An entry is stored under the path of a request, which the router handed to an
injected route by its registered path.  The wildcard purge of the content type
finds it through the configured paths of the content type's routes.
-/

namespace RestCache
namespace Config

open Foundation
open CaseMapping
open RegExpSource
open Router
open Keys

section Reach

variable (strategy : CachePluginStrategy) (strapiRoutes : List FlattenedRoute)

/-- `recv` for this route of the content type was attached to `route`. -/
structure Attached (cacheConf : CacheContentTypeConfig)
    (cacheRoute : CacheRouteConfig) (route : FlattenedRoute) : Prop where
  contentType : cacheConf ∈ strategy.contentTypes
  configured : cacheRoute ∈ cacheConf.routes
  registered : route ∈ injectMiddlewares strategy strapiRoutes
  recv : RouteMiddleware.recv cacheRoute ∈ route.middlewares

/-- Some expression of the content type's wildcard purge matches the key. -/
def Purges (contentType key : JsString) : Prop :=
  exists patterns,
    strategy.getCacheKeysRegexp latin1 contentType (some ∅) true =
        Except.ok patterns ∧
      exists p, p ∈ patterns ∧ p.test key = true

structure RequestPath (path : JsString) : Prop where
  latin : forall c, c ∈ path -> c.toNat < 256
  noQuery : '?' ∉ path
  normal : NormalPath path

/-- Whatever an attached route is asked for, the purge of its content type finds. -/
def StoredIsPurged : Prop :=
  forall cacheConf cacheRoute route,
    Attached strategy strapiRoutes cacheConf cacheRoute route ->
    forall (ctx : Context) (keys : CacheKeysConfig), RequestPath ctx.path ->
      Serves route.path ctx.path ->
      Purges strategy cacheConf.contentType (generateCacheKey latin1 ctx keys)

/-- The `GET` routes that the purge of a content type is built from. -/
def purgedRoutes (contentType : JsString) : List CacheRouteConfig :=
  match strategy.get contentType with
  | none => []
  | some cacheConf =>
      cacheConf.routes.filter (fun route => route.method = "GET".toList)

/-- The purge reads the configured path as this route, constraints included. -/
structure ReadAs (cacheRoute : CacheRouteConfig) (route : RoutePath) : Prop
    extends Configured cacheRoute route where
  survive : allSurvive route = true

theorem readAs_of_spelled {cacheRoute : CacheRouteConfig} {route : RoutePath}
    (h : Spelled cacheRoute route) : ReadAs cacheRoute route := by
  refine ⟨⟨h.path, h.paramNames, ?_⟩, ?_⟩
  · intro segment hsegment
    have hread := h.readable segment hsegment
    cases segment with
    | text static => exact hread.left
    | params named after => exact hread.left
    | param before name constraint modifier =>
        cases constraint with
        | none => exact hread.left
        | some source => exact absurd hread.right Bool.false_ne_true
  · have hsurvive : forall route : RoutePath, Readable route ->
        allSurvive route = true := by
      intro route hroute
      induction route with
      | nil => rfl
      | cons segment rest ih =>
          have hfree := (hroute segment List.mem_cons_self).right
          have hrest := ih (fun other hother =>
            hroute other (List.mem_cons_of_mem segment hother))
          have hsegment : survives segment = true ∧
              endFits rest segment = true := by
            cases segment with
            | text static => exact ⟨rfl, rfl⟩
            | params named after => exact ⟨rfl, rfl⟩
            | param before name constraint modifier =>
                cases constraint with
                | none => exact ⟨rfl, rfl⟩
                | some source => exact absurd hfree Bool.false_ne_true
          rw [allSurvive, hsegment.left, hsegment.right, hrest]
          rfl
    exact hsurvive route h.readable

/-- The configured path of one of the content type's routes takes the path. -/
def TakenAsConfigured (contentType path : JsString) : Prop :=
  exists cacheRoute route, cacheRoute ∈ purgedRoutes strategy contentType ∧
    ReadAs cacheRoute route ∧ Serves route path

def Covered : Prop :=
  forall cacheConf cacheRoute route,
    Attached strategy strapiRoutes cacheConf cacheRoute route ->
    forall path, RequestPath path -> Serves route.path path ->
      TakenAsConfigured strategy cacheConf.contentType path

/-- The purge can read the paths of all routes it is built from. -/
def AllRead : Prop :=
  forall contentType cacheRoute,
    cacheRoute ∈ purgedRoutes strategy contentType ->
    exists route, ReadAs cacheRoute route

/-- And reads no more into them than the router does. -/
def AllReturn : Prop :=
  forall contentType cacheRoute,
    cacheRoute ∈ purgedRoutes strategy contentType ->
    exists route, ReadAs cacheRoute route ∧
      forall segment, segment ∈ route -> returns segment = true

end Reach

variable {lower : CaseMapping} {strategy : CachePluginStrategy}
  {strapiRoutes : List FlattenedRoute}

/-!
## The expressions of a content type
-/

theorem getCacheKeysRegexp_eq_mapM (contentType : JsString)
    (params : Option RouteParams) (wildcard : Bool) :
    strategy.getCacheKeysRegexp lower contentType params wildcard =
      ((purgedRoutes strategy contentType).mapM
        (fun route => getRouteRegExp lower route params wildcard)).map
          List.flatten := by
  unfold CachePluginStrategy.getCacheKeysRegexp purgedRoutes
  cases strategy.get contentType with
  | none => rfl
  | some cacheConf => rfl

theorem getCacheKeysRegexp_eq (h : AllRead strategy) (contentType : JsString) :
    exists patterns,
      strategy.getCacheKeysRegexp latin1 contentType (some ∅) true =
          Except.ok patterns ∧
        forall p, p ∈ patterns <->
          exists cacheRoute, cacheRoute ∈ purgedRoutes strategy contentType ∧
            getRouteRegExp latin1 cacheRoute (some ∅) true =
              Except.ok [p] := by
  have hone : forall cacheRoute,
      cacheRoute ∈ purgedRoutes strategy contentType ->
      exists p, getRouteRegExp latin1 cacheRoute (some ∅) true =
        Except.ok [p] := by
    intro cacheRoute hroute
    rcases h contentType cacheRoute hroute with ⟨route, hread⟩
    rcases test_key_of_taken hread.toConfigured hread.survive (some ∅) with
      ⟨p, hget, _⟩
    exact ⟨p, hget⟩
  rcases mapM_ok (fun cacheRoute hroute =>
    (hone cacheRoute hroute).imp' (fun p => [p]) (fun _ hp => hp)) with
    ⟨groups, hgroups, hmem⟩
  refine ⟨groups.flatten, ?_, ?_⟩
  · rw [getCacheKeysRegexp_eq_mapM, hgroups]
    rfl
  · intro p
    rw [List.mem_flatten]
    constructor
    · intro hgiven
      rcases hgiven with ⟨group, hgroup, hp⟩
      rcases (hmem group).mp hgroup with ⟨cacheRoute, hroute, hget⟩
      rcases hone cacheRoute hroute with ⟨q, hq⟩
      refine ⟨cacheRoute, hroute, ?_⟩
      rw [hget, Except.ok.injEq] at hq
      rw [hq, List.mem_singleton] at hp
      rw [hget, hq, hp]
    · intro hgiven
      rcases hgiven with ⟨cacheRoute, hroute, hget⟩
      exact ⟨[p], (hmem [p]).mpr ⟨cacheRoute, hroute, hget⟩,
        List.mem_singleton_self p⟩

/-!
## Both directions
-/

/-- In normal form a path has no slash at its end that could be left over. -/
theorem takes_all {route : RoutePath} {path : JsString} (h : NormalPath path)
    (hserves : Serves route path) : Takes route path path := by
  rcases hserves with ⟨text, after, hpath, hafter, hroute⟩
  rcases hafter with rfl | rfl
  · rw [List.append_nil] at hpath
    rw [hpath]
    exact ⟨[], (List.append_nil text).symm, Or.inl rfl, hroute⟩
  · have hlast := (tidy_normalPath h).last
    rw [hpath] at hlast
    exact absurd List.getLast?_concat hlast

theorem purges_of_taken (h : AllRead strategy) {contentType : JsString}
    {ctx : Context} (hpath : RequestPath ctx.path)
    (htaken : TakenAsConfigured strategy contentType ctx.path)
    (keys : CacheKeysConfig) :
    Purges strategy contentType (generateCacheKey latin1 ctx keys) := by
  rcases htaken with ⟨cacheRoute, route, hroute, hread, hserves⟩
  rcases test_key_of_taken hread.toConfigured hread.survive (some ∅) with
    ⟨p, hget, htest⟩
  rcases getCacheKeysRegexp_eq h contentType with ⟨patterns, hpatterns, hmem⟩
  exact ⟨patterns, hpatterns, p, (hmem p).mpr ⟨cacheRoute, hroute, hget⟩,
    htest ctx keys ctx.path hpath.latin (takes_all hpath.normal hserves)
      hpath.normal⟩

theorem storedIsPurged_of_covered (h : AllRead strategy)
    (hcovered : Covered strategy strapiRoutes) :
    StoredIsPurged strategy strapiRoutes :=
  fun cacheConf cacheRoute route hattached ctx keys hpath hserves =>
    purges_of_taken h hpath
      (hcovered cacheConf cacheRoute route hattached ctx.path hpath hserves) keys

def bareRequest (path : JsString) (h : '?' ∉ path) : Context where
  path
  path_noQuery := h
  query := Query.empty
  header _ := none
  auth := none

theorem covered_of_storedIsPurged (h : AllReturn strategy)
    (hpurged : StoredIsPurged strategy strapiRoutes) :
    Covered strategy strapiRoutes := by
  intro cacheConf cacheRoute route hattached path hpath hserves
  rcases hpurged cacheConf cacheRoute route hattached
    (bareRequest path hpath.noQuery) pathOnly hpath hserves with
    ⟨patterns, hpatterns, p, hp, htest⟩
  have hread : AllRead strategy := fun contentType other hother =>
    (h contentType other hother).imp (fun _ hboth => hboth.left)
  rcases getCacheKeysRegexp_eq hread cacheConf.contentType with
    ⟨patterns', hpatterns', hmem⟩
  rw [hpatterns, Except.ok.injEq] at hpatterns'
  rw [hpatterns'] at hp
  rcases (hmem p).mp hp with ⟨other, hother, hget⟩
  rcases h cacheConf.contentType other hother with ⟨taken, htaken, hreturns⟩
  exact ⟨other, taken, hother, htaken,
    @serves_of_test_key other taken htaken.toConfigured htaken.survive hreturns
      (some ∅) (bareRequest path hpath.noQuery) hpath.latin hpath.normal p hget
      htest⟩

/-!
## Spellings
-/

/-- The two spellings are equal, or only the configured one ends in a `+`. -/
def SpelledAlike (cacheRoute : CacheRouteConfig) (route : FlattenedRoute) :
    Prop :=
  ReadAs cacheRoute route.path ∨
    exists (init : RoutePath) (before name : JsString)
        (constraint : Option JsString),
      route.path =
          init ++ [Segment.param before name constraint Modifier.none] ∧
        ReadAs cacheRoute
          (init ++ [Segment.param before name constraint Modifier.plus])

theorem covered_of_spelledAlike (hinit : RecvMatches strapiRoutes)
    (hget : forall cacheConf, cacheConf ∈ strategy.contentTypes ->
      strategy.get cacheConf.contentType = some cacheConf)
    (h : forall cacheConf cacheRoute route,
      Attached strategy strapiRoutes cacheConf cacheRoute route ->
      SpelledAlike cacheRoute route) :
    Covered strategy strapiRoutes := by
  intro cacheConf cacheRoute route hattached path _ hserves
  have hmethod := (recvMatches_injectMiddlewares strategy hinit route
    hattached.registered cacheRoute hattached.recv).left
  have hmem : cacheRoute ∈ purgedRoutes strategy cacheConf.contentType := by
    rw [purgedRoutes, hget cacheConf hattached.contentType]
    simpa [List.mem_filter, hmethod] using hattached.configured
  rcases h cacheConf cacheRoute route hattached with
    hsame | ⟨init, before, name, constraint, hroute, hplus⟩
  · exact ⟨cacheRoute, route.path, hmem, hsame, hserves⟩
  · rw [hroute] at hserves
    exact ⟨cacheRoute, _, hmem, hplus, serves_plus hserves⟩

/--
Whatever is stored through an injected route is purged, if the registered paths
take no more than the configured ones as they are read; only then, if nothing
more is read into these.
-/
theorem storedIsPurged_when_covered (strategy : CachePluginStrategy)
    (strapiRoutes : List FlattenedRoute) :
    (AllRead strategy -> Covered strategy strapiRoutes ->
        StoredIsPurged strategy strapiRoutes) ∧
      (AllReturn strategy -> StoredIsPurged strategy strapiRoutes ->
        Covered strategy strapiRoutes) := by
  constructor
  · exact storedIsPurged_of_covered
  · exact covered_of_storedIsPurged

/-!
## A plus on one side

A route registered with a `+` is found by a configured path without it.  It
serves paths of several segments, which the purge's one segment does not match.
-/

def slugRoute (modifier : Modifier) : RoutePath :=
  [Segment.text "api".toList, Segment.text "slug".toList,
    Segment.param [] "slug".toList none modifier]

theorem slugRoute_wellFormed (modifier : Modifier) :
    forall segment, segment ∈ slugRoute modifier ->
      segment.wellFormed = true := by
  cases modifier <;> decide

def slugRegistered (middlewares : List RouteMiddleware) : FlattenedRoute where
  method := "GET".toList
  path := slugRoute Modifier.plus
  wellFormed := slugRoute_wellFormed Modifier.plus
  middlewares

def slugConfigured (path : JsString) : CacheRouteConfig where
  path
  method := "GET".toList
  paramNames := ["slug".toList]

def slugContentType (path : JsString) : CacheContentTypeConfig where
  contentType := "api::category.category".toList
  routes := [slugConfigured path]

def slugStrategy (path : JsString) : CachePluginStrategy where
  enableDocumentServiceMiddleware := true
  contentTypes := [slugContentType path]

def slugPath : JsString :=
  "/api/slug/a/b".toList

theorem slugPath_noQuery : '?' ∉ slugPath := by
  decide

theorem slugPath_request : RequestPath slugPath where
  latin := by
    have hall : slugPath.all (fun c => c.toNat < 256) = true := by
      decide
    exact fun c hc => of_decide_eq_true (List.all_eq_true.mp hall c hc)
  noQuery := slugPath_noQuery
  normal := by
    refine ⟨["api".toList, "slug".toList, "a".toList, "b".toList], by simp, ?_,
      by decide⟩
    intro seg hseg
    simp only [List.mem_cons, List.not_mem_nil, or_false] at hseg
    rcases hseg with rfl | rfl | rfl | rfl <;>
      exact ⟨by decide, by decide, by decide, by decide⟩

theorem slug_injected {path : JsString}
    (h : normalizeRoutePath (some path) = "/api/slug/:slug".toList) :
    injectMiddlewares (slugStrategy path) [slugRegistered []] =
      [slugRegistered [RouteMiddleware.recv (slugConfigured path)]] := by
  have hpath : normalizeRoutePath (slugRegistered []).globalPath =
      "/api/slug/:slug".toList := by
    decide
  have hmatch : matchesRoute (slugConfigured path) (slugRegistered []) =
      true := by
    rw [matchesRoute, hpath, show (slugConfigured path).path = path from rfl, h]
    simp [slugRegistered, slugConfigured]
  show attachTo (slugConfigured path)
    (RouteMiddleware.recv (slugConfigured path)) [slugRegistered []] = _
  rw [attachTo, if_pos hmatch]
  rfl

theorem slug_attached {path : JsString}
    (h : normalizeRoutePath (some path) = "/api/slug/:slug".toList) :
    Attached (slugStrategy path) [slugRegistered []] (slugContentType path)
      (slugConfigured path)
      (slugRegistered [RouteMiddleware.recv (slugConfigured path)]) := by
  constructor
  · exact List.mem_singleton_self _
  · exact List.mem_singleton_self _
  · rw [slug_injected h]
    exact List.mem_singleton_self _
  · exact List.mem_singleton_self _

theorem slugRoute_unconstrained (modifier : Modifier) :
    forall segment, segment ∈ slugRoute modifier ->
      unconstrained segment = true := by
  cases modifier <;> decide

theorem slug_serves : Serves (slugRoute Modifier.plus) slugPath := by
  have hvalue : forall v : JsString, v ≠ [] -> v.all isRest = true ->
      valueAccepts none v :=
    fun v hne hall => ⟨hne, List.all_eq_true.mp hall⟩
  have hapi : "/api".toList = '/' :: latin1.toLowerCase "api".toList := by
    decide
  have hslug : "/slug".toList = '/' :: latin1.toLowerCase "slug".toList := by
    decide
  apply (serves_iff_accepts (slugRoute_unconstrained Modifier.plus)).mpr
  refine Or.inl ⟨"/api".toList, "/slug/a/b".toList, by decide, hapi,
    "/slug".toList, "/a/b".toList, by decide, hslug,
    "/a/b".toList, [], by decide,
    ⟨"a".toList, ["b".toList], by decide, hvalue _ (by decide) rfl, ?_⟩, rfl⟩
  intro other hother
  rw [List.mem_singleton.mp hother]
  exact hvalue _ (by decide) rfl

theorem not_storedIsPurged_plus :
    ¬ forall strategy strapiRoutes, StoredIsPurged strategy strapiRoutes := by
  intro h
  rcases h (slugStrategy "/api/slug/:slug".toList) [slugRegistered []] _ _ _
    (slug_attached (by decide)) (bareRequest slugPath slugPath_noQuery) pathOnly
    slugPath_request slug_serves with ⟨patterns, hpatterns, p, hp, htest⟩
  have hany : (patternsOf ((slugStrategy "/api/slug/:slug".toList).getCacheKeysRegexp
      latin1 (slugContentType "/api/slug/:slug".toList).contentType
      (some ∅) true)).any (fun p => p.test (generateCacheKey latin1
        (bareRequest slugPath slugPath_noQuery) pathOnly)) = false := by
    decide +kernel
  rw [hpatterns] at hany
  have hnone := List.any_eq_false.mp hany p hp
  exact hnone htest

/-!
## A plus on both sides
-/

def plusPath : JsString :=
  "/api/slug/:slug+".toList

theorem plus_readAs :
    ReadAs (slugConfigured plusPath) (slugRoute Modifier.plus) where
  path := by decide
  paramNames := fun _ => by decide
  valid := by decide
  survive := by decide

theorem plus_allRead : AllRead (slugStrategy plusPath) := by
  intro contentType cacheRoute hroute
  have hsame : cacheRoute = slugConfigured plusPath := by
    unfold purgedRoutes CachePluginStrategy.get at hroute
    split at hroute
    · exact absurd hroute List.not_mem_nil
    · rename_i cacheConf hget
      have hconf := List.mem_singleton.mp (List.mem_of_find?_eq_some hget)
      rw [hconf] at hroute
      exact List.mem_singleton.mp (List.mem_filter.mp hroute).left
  rw [hsame]
  exact ⟨_, plus_readAs⟩

theorem plus_covered :
    Covered (slugStrategy plusPath) [slugRegistered []] := by
  refine covered_of_spelledAlike ?_ ?_ ?_
  · intro route hroute cacheRoute hrecv
    rw [List.mem_singleton.mp hroute] at hrecv
    exact absurd hrecv List.not_mem_nil
  · intro cacheConf hconf
    rw [List.mem_singleton.mp hconf]
    rfl
  · intro cacheConf cacheRoute route hattached
    have hroute := hattached.registered
    rw [slug_injected (by decide)] at hroute
    have hsame := hattached.configured
    rw [List.mem_singleton.mp hattached.contentType] at hsame
    rw [List.mem_singleton.mp hsame, List.mem_singleton.mp hroute]
    exact Or.inl plus_readAs

/-- With the `+` on both sides the purge reaches every entry. -/
theorem storedIsPurged_plus :
    StoredIsPurged (slugStrategy plusPath) [slugRegistered []] :=
  (storedIsPurged_when_covered (slugStrategy plusPath)
    [slugRegistered []]).left plus_allRead plus_covered

end Config
end RestCache
