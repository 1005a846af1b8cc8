import RestCache.Config.OwnUrl
import RestCache.Config.PurgeReach
import RestCache.Invalidation.AutomaticPurge

/-!
# Routed writes

In the legacy mode a write purges through the route it came in on.  The purge
sees the parameters of its URL decoded, and the entries of the URL are kept
under its raw path.
-/

namespace RestCache
namespace Invalidation

open Foundation
open UriComponent
open Config
open Store
open Router
open Keys

/-!
## A write of a URL
-/

section Writes

variable {σ E R : Type} (strategy : RelatedStrategy) (lower : CaseMapping)
  (self : CacheStore) (provider : CacheProvider σ)

end Writes

/-- In the legacy mode, a path that is configured for reading and for writing. -/
structure ReadAndWritten (strategy : RelatedStrategy)
    (contentType path : JsString) (cacheRoute : CacheRouteConfig) : Prop where
  legacy : strategy.enableDocumentServiceMiddleware = false
  unrelated : strategy.clearRelatedCache = false
  configured : exists cacheConf, strategy.get contentType = some cacheConf ∧
    cacheRoute ∈ cacheConf.routes
  writes : cacheRoute.method = "PUT".toList ∨ cacheRoute.method = "DELETE".toList
  written : cacheRoute.path = path
  read : exists readRoute,
    readRoute ∈ purgedRoutes strategy.toCachePluginStrategy contentType ∧
      readRoute.path = path ∧ (':' ∈ path -> readRoute.paramNames ≠ [])

/-- The keys of what is stored for a request: the response and its ETag. -/
def entryKeys (lower : CaseMapping) (ctx : Context) (keys : CacheKeysConfig) :
    List JsString :=
  [generateCacheKey lower ctx keys,
    generateCacheKey lower ctx keys ++ "_etag".toList]

section Purged

variable {strategy : RelatedStrategy} {lower : CaseMapping}
  {contentType path keysPrefix : JsString} {cacheRoute : CacheRouteConfig}
  {params : RouteParams}

theorem ReadAndWritten.middleware
    (h : ReadAndWritten strategy contentType path cacheRoute) :
    middlewareFor strategy.toCachePluginStrategy contentType cacheRoute =
      some (RouteMiddleware.purge contentType) := by
  have hwrites : cacheRoute.method ∈ writeMethods := by
    rcases h.writes with hmethod | hmethod
    · rw [hmethod]
      decide
    · rw [hmethod]
      decide
  unfold middlewareFor
  rw [if_pos hwrites, h.legacy]
  rfl

theorem ReadAndWritten.clearPatterns
    (h : ReadAndWritten strategy contentType path cacheRoute) :
    strategy.clearPatterns lower contentType params false =
      strategy.patternsFor lower contentType params false := by
  rcases h.configured with ⟨cacheConf, hget, _⟩
  have hcached : strategy.isCached contentType = true := by
    rw [RelatedStrategy.isCached, hget]
    rfl
  rw [RelatedStrategy.clearPatterns, if_pos hcached, h.unrelated]
  cases strategy.patternsFor lower contentType params false with
  | error e => rfl
  | ok regExps => rfl

end Purged

/-!
## The entries of a URL
-/

section Own

variable {lower : CaseMapping} {params : RouteParams} {route : Route}
  {segs : List JsString} {u : JsString}

def pageType : JsString :=
  "api::page.page".toList

end Own

def tagRoute : Route :=
  [Part.text "tags".toList, Part.param "name".toList]

section Tag

variable {lower : CaseMapping} {seg value : JsString}

end Tag

end Invalidation
end RestCache
