import RestCache.Config.WildcardCoverage

/-!
# Injected routes

A configured route is attached to the first registered route with its method and
its path, where a `+` at the end of either path does not count.  Requests come
in on the registered path and purges are built from the configured one.
-/

namespace RestCache
namespace Config

open Foundation
open Router
open Keys

/-!
## Attaching the middlewares
-/

def normalizeRoutePath (path : Option JsString) : JsString :=
  let path := path.getD []
  if path.getLast? = some '+' then path.dropLast else path

inductive RouteMiddleware where
  | named (name : JsString)
  | purge (contentType : JsString)
  | recv (cacheRouteConfig : CacheRouteConfig)
deriving DecidableEq

def RouteMiddleware.name : RouteMiddleware -> JsString
  | named name => name
  | purge _ => "plugin::rest-cache.purge".toList
  | recv _ => "plugin::rest-cache.recv".toList

structure FlattenedRoute where
  method : JsString
  path : RoutePath
  wellFormed : forall segment, segment ∈ path -> segment.wellFormed = true
  middlewares : List RouteMiddleware

def FlattenedRoute.globalPath (route : FlattenedRoute) : Option JsString :=
  some (render route.path)

/-- Replace the middleware of this name, or add it at the end. -/
def injectMiddleware (middleware : RouteMiddleware) :
    List RouteMiddleware -> List RouteMiddleware
  | [] => [middleware]
  | other :: rest =>
      if other.name = middleware.name then middleware :: rest
      else other :: injectMiddleware middleware rest

def writeMethods : List JsString :=
  ["DELETE".toList, "PUT".toList, "PATCH".toList, "POST".toList]

def middlewareFor (strategy : CachePluginStrategy) (contentType : JsString)
    (cacheRoute : CacheRouteConfig) : Option RouteMiddleware :=
  if cacheRoute.method ∈ writeMethods then
    if strategy.enableDocumentServiceMiddleware then none
    else some (RouteMiddleware.purge contentType)
  else if cacheRoute.method = "GET".toList then
    some (RouteMiddleware.recv cacheRoute)
  else
    none

def matchesRoute (cacheRoute : CacheRouteConfig) (route : FlattenedRoute) :
    Bool :=
  route.method = cacheRoute.method &&
    normalizeRoutePath route.globalPath =
      normalizeRoutePath (some cacheRoute.path)

def attachTo (cacheRoute : CacheRouteConfig) (middleware : RouteMiddleware) :
    List FlattenedRoute -> List FlattenedRoute
  | [] => []
  | route :: rest =>
      if matchesRoute cacheRoute route then
        { route with
          middlewares := injectMiddleware middleware route.middlewares } ::
            rest
      else
        route :: attachTo cacheRoute middleware rest

def injectRoute (strategy : CachePluginStrategy) (contentType : JsString)
    (strapiRoutes : List FlattenedRoute) (cacheRoute : CacheRouteConfig) :
    List FlattenedRoute :=
  match middlewareFor strategy contentType cacheRoute with
  | none => strapiRoutes
  | some middleware => attachTo cacheRoute middleware strapiRoutes

def injectContentType (strategy : CachePluginStrategy)
    (strapiRoutes : List FlattenedRoute)
    (cacheConf : CacheContentTypeConfig) : List FlattenedRoute :=
  cacheConf.routes.foldl (injectRoute strategy cacheConf.contentType)
    strapiRoutes

def injectMiddlewares (strategy : CachePluginStrategy)
    (strapiRoutes : List FlattenedRoute) : List FlattenedRoute :=
  strategy.contentTypes.foldl (injectContentType strategy) strapiRoutes

/-!
## What is attached where
-/

theorem mem_injectMiddleware {middleware other : RouteMiddleware}
    {middlewares : List RouteMiddleware}
    (h : other ∈ injectMiddleware middleware middlewares) :
    other = middleware ∨ other ∈ middlewares := by
  induction middlewares with
  | nil => exact Or.inl (List.mem_singleton.mp h)
  | cons first rest ih =>
      rw [injectMiddleware] at h
      split at h
      · rcases List.mem_cons.mp h with hnew | hrest
        · exact Or.inl hnew
        · exact Or.inr (List.mem_cons_of_mem first hrest)
      · rcases List.mem_cons.mp h with hfirst | hrest
        · exact Or.inr (List.mem_cons.mpr (Or.inl hfirst))
        · exact (ih hrest).imp id (List.mem_cons_of_mem first)

/-- Every `recv` on these routes is for a configured route they match. -/
def RecvMatches (strapiRoutes : List FlattenedRoute) : Prop :=
  forall route, route ∈ strapiRoutes -> forall cacheRoute,
    RouteMiddleware.recv cacheRoute ∈ route.middlewares ->
      cacheRoute.method = "GET".toList ∧ matchesRoute cacheRoute route = true

theorem recvMatches_attachTo {cacheRoute : CacheRouteConfig}
    {middleware : RouteMiddleware} {strapiRoutes : List FlattenedRoute}
    (hrecv : forall other, middleware = RouteMiddleware.recv other ->
      other = cacheRoute ∧ cacheRoute.method = "GET".toList)
    (h : RecvMatches strapiRoutes) :
    RecvMatches (attachTo cacheRoute middleware strapiRoutes) := by
  induction strapiRoutes with
  | nil => exact h
  | cons first rest ih =>
      have hfirst := h first List.mem_cons_self
      have hrest : RecvMatches rest :=
        fun route hroute => h route (List.mem_cons_of_mem first hroute)
      rw [attachTo]
      split
      · rename_i hmatch
        intro route hroute other hother
        rcases List.mem_cons.mp hroute with hhead | htail
        · rw [hhead] at hother ⊢
          rcases mem_injectMiddleware hother with hnew | hold
          · rcases hrecv other hnew.symm with ⟨hsame, hget⟩
            rw [hsame]
            exact ⟨hget, hmatch⟩
          · exact hfirst other hold
        · exact hrest route htail other hother
      · intro route hroute
        rcases List.mem_cons.mp hroute with hhead | htail
        · rw [hhead]
          exact hfirst
        · exact ih hrest route htail

theorem recvMatches_injectRoute {strategy : CachePluginStrategy}
    {contentType : JsString} {cacheRoute : CacheRouteConfig}
    {strapiRoutes : List FlattenedRoute} (h : RecvMatches strapiRoutes) :
    RecvMatches (injectRoute strategy contentType strapiRoutes cacheRoute) := by
  unfold injectRoute
  split
  · exact h
  · rename_i middleware hmiddleware
    refine recvMatches_attachTo ?_ h
    intro other hgiven
    rcases hgiven with rfl
    unfold middlewareFor at hmiddleware
    split at hmiddleware
    · split at hmiddleware
      · exact absurd hmiddleware (by simp)
      · exact absurd (Option.some.inj hmiddleware) (by simp)
    · split at hmiddleware
      · rename_i hget
        rw [Option.some.injEq, RouteMiddleware.recv.injEq] at hmiddleware
        exact ⟨hmiddleware.symm, hget⟩
      · exact absurd hmiddleware (by simp)

/-- The middlewares that injection leaves match the routes they are on. -/
theorem recvMatches_injectMiddlewares (strategy : CachePluginStrategy)
    {strapiRoutes : List FlattenedRoute} (h : RecvMatches strapiRoutes) :
    RecvMatches (injectMiddlewares strategy strapiRoutes) := by
  have hroutes : forall contentType (routes : List CacheRouteConfig)
      {table : List FlattenedRoute}, RecvMatches table ->
      RecvMatches (routes.foldl (injectRoute strategy contentType) table) := by
    intro contentType routes
    induction routes with
    | nil => exact fun h => h
    | cons cacheRoute rest ih =>
        exact fun h => ih (recvMatches_injectRoute h)
  have hall : forall (contentTypes : List CacheContentTypeConfig)
      {table : List FlattenedRoute}, RecvMatches table ->
      RecvMatches (contentTypes.foldl (injectContentType strategy) table) := by
    intro contentTypes
    induction contentTypes with
    | nil => exact fun h => h
    | cons cacheConf rest ih =>
        exact fun h => ih (hroutes cacheConf.contentType cacheConf.routes h)
  exact hall strategy.contentTypes h

end Config
end RestCache
