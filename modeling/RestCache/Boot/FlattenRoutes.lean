import Mathlib.Logic.Function.Basic
import RestCache.Config.InjectMiddlewares
import RestCache.Foundation.JsonText
import RestCache.Foundation.KeyedUpdate
import RestCache.Strategy.Resolve

/-!
# The table of registered routes

Routes are objects that the APIs and the plugins of Strapi refer to, and that
the plugin changes in place.  One object may be referred to more than once.
-/

namespace RestCache
namespace Boot

open Foundation
open Foundation.KeyedUpdate
open Strategy (HttpMethod CacheRouteConfig CacheContentTypeConfig
  CachePluginStrategy)

section Objects

variable (Context : Type _)

inductive MiddlewareConfig where
  | empty
  | contentType (uid : Option JsString)
  | cacheRouteConfig (cacheRoute : CacheRouteConfig Context)
  | other (value : JsValue)

/-- An entry of a route's middlewares: a uid, an object or a function. -/
inductive RouteMiddleware where
  | uid (text : JsString)
  | object (name : JsString) (config : MiddlewareConfig Context)
  | handler (index : Nat)

inductive RouteConfig where
  | undefined
  | null
  | object (middlewares : Option (List (RouteMiddleware Context)))
      (ownPrefix : Bool)

structure FlattenedRoute where
  method : Option HttpMethod
  path : JsString
  globalPath : Option JsString
  config : RouteConfig Context

end Objects

abbrev RouteId := Nat

abbrev Objects (Context : Type _) := RouteId -> FlattenedRoute Context

/-- An array of routes, an object with one, or an object of containers. -/
inductive RouteContainer where
  | array (routes : List RouteId)
  | routes (routes : List RouteId)
  | record (containers : List RouteContainer)

structure RouterInfo where
  type : Option JsString
  routerPrefix : Option JsString

/-- A router, or a function that answers one; `none` for no array of routes. -/
inductive PluginRouter where
  | object (info : RouterInfo) (routes : Option (List RouteId))
  | factory (answer : Option RouterInfo) (routes : Option (List RouteId))

inductive PluginRoutes where
  | undefined
  | array (routes : List RouteId)
  | record (routers : List PluginRouter)

structure Plugin where
  name : JsString
  routes : PluginRoutes

structure Strapi where
  apis : List RouteContainer
  plugins : List Plugin
  apiPrefix : JsString

/-!
## Flattening
-/

mutual

def flatten : RouteContainer -> List RouteId
  | RouteContainer.array routes => routes
  | RouteContainer.routes routes => routes
  | RouteContainer.record containers => flattenAll containers

def flattenAll : List RouteContainer -> List RouteId
  | [] => []
  | container :: rest => flatten container ++ flattenAll rest

end

def PluginRouter.routes : PluginRouter -> Option (List RouteId)
  | object _ routes => routes
  | factory _ routes => routes

def PluginRouter.info : PluginRouter -> RouterInfo
  | object info _ => info
  | factory answer _ => answer.getD { type := none, routerPrefix := none }

def contentApiRoutes (pluginName : JsString) (router : PluginRouter) :
    List (RouteId × JsString) :=
  match router.routes with
  | none => []
  | some routes =>
      if router.info.type = some "content-api".toList then
        routes.map fun id =>
          (id, router.info.routerPrefix.getD ('/' :: pluginName))
      else
        []

def pluginContentApiRoutes (plugins : List Plugin) :
    List (RouteId × JsString) :=
  plugins.flatMap fun plugin =>
    match plugin.routes with
    | PluginRoutes.record routers =>
        routers.flatMap (contentApiRoutes plugin.name)
    | _ => []

variable {Context : Type _}

def FlattenedRoute.ownPrefix (route : FlattenedRoute Context) : Bool :=
  match route.config with
  | RouteConfig.object _ ownPrefix => ownPrefix
  | _ => false

def FlattenedRoute.withGlobalPath (route : FlattenedRoute Context)
    (globalPath : JsString) : FlattenedRoute Context :=
  { route with globalPath := some globalPath }

def apiGlobalPath (apiPrefix : JsString) (route : FlattenedRoute Context) :
    JsString :=
  apiPrefix ++ route.path

def pluginGlobalPath (apiPrefix routerPrefix : JsString)
    (route : FlattenedRoute Context) : JsString :=
  apiPrefix ++ (if route.ownPrefix then [] else routerPrefix) ++ route.path

def setApiPath (apiPrefix : JsString) (objects : Objects Context)
    (id : RouteId) : Objects Context :=
  Function.update objects id
    ((objects id).withGlobalPath (apiGlobalPath apiPrefix (objects id)))

def setPluginPath (apiPrefix : JsString) (objects : Objects Context)
    (mounted : RouteId × JsString) : Objects Context :=
  Function.update objects mounted.1
    ((objects mounted.1).withGlobalPath
      (pluginGlobalPath apiPrefix mounted.2 (objects mounted.1)))

/-- The table, and the objects with their global paths. -/
def flattenRoutes (strapi : Strapi) (objects : Objects Context) :
    List RouteId × Objects Context :=
  let routes := flattenAll strapi.apis
  let mounted := pluginContentApiRoutes strapi.plugins
  (routes ++ mounted.map Prod.fst,
    mounted.foldl (setPluginPath strapi.apiPrefix)
      (routes.foldl (setApiPath strapi.apiPrefix) objects))

def tableOf (strapi : Strapi) : List RouteId :=
  flattenAll strapi.apis ++ (pluginContentApiRoutes strapi.plugins).map Prod.fst

/-!
## Global paths

The global path of an object depends on where it was seen last, and on nothing
that the plugin changes.
-/

theorem setApiPath_foldl (apiPrefix : JsString) (routes : List RouteId)
    (objects : Objects Context) (id : RouteId) :
    routes.foldl (setApiPath apiPrefix) objects id =
      if id ∈ routes then
        (objects id).withGlobalPath (apiGlobalPath apiPrefix (objects id))
      else objects id := by
  induction routes generalizing objects with
  | nil => simp
  | cons other rest ih =>
      rw [List.foldl_cons, ih]
      by_cases h : id = other
      · subst h
        have hself : setApiPath apiPrefix objects id id =
            (objects id).withGlobalPath (apiGlobalPath apiPrefix (objects id)) :=
          Function.update_self ..
        rw [hself, if_pos List.mem_cons_self]
        split <;> rfl
      · have hother : setApiPath apiPrefix objects other id = objects id :=
          Function.update_of_ne h ..
        rw [hother]
        simp [h]

theorem setPluginPath_foldl (apiPrefix : JsString)
    (mounted : List (RouteId × JsString)) (objects : Objects Context)
    (id : RouteId) :
    mounted.foldl (setPluginPath apiPrefix) objects id =
      ((latest Prod.fst id mounted).map fun mount =>
        (objects id).withGlobalPath
          (pluginGlobalPath apiPrefix mount.2 (objects id))).getD
        (objects id) := by
  induction mounted generalizing objects with
  | nil => rfl
  | cons mount rest ih =>
      rw [List.foldl_cons, ih, latest_cons]
      by_cases h : mount.1 = id
      · have hself : setPluginPath apiPrefix objects mount id =
            (objects id).withGlobalPath
              (pluginGlobalPath apiPrefix mount.2 (objects id)) := by
          rw [← h]
          exact Function.update_self ..
        rw [hself, if_pos h]
        cases latest Prod.fst id rest <;> rfl
      · have hother : setPluginPath apiPrefix objects mount id = objects id :=
          Function.update_of_ne (Ne.symm h) ..
        rw [hother, if_neg h, Option.or_none]

/-- The global path that flattening leaves on an object. -/
def mountedPath (strapi : Strapi) (route : FlattenedRoute Context)
    (id : RouteId) : Option JsString :=
  ((latest Prod.fst id (pluginContentApiRoutes strapi.plugins)).map fun mount =>
    pluginGlobalPath strapi.apiPrefix mount.2 route).or
      (if id ∈ flattenAll strapi.apis then
        some (apiGlobalPath strapi.apiPrefix route)
      else
        route.globalPath)

theorem flattenRoutes_objects (strapi : Strapi) (objects : Objects Context)
    (id : RouteId) :
    (flattenRoutes strapi objects).2 id =
      { objects id with globalPath := mountedPath strapi (objects id) id } := by
  show (pluginContentApiRoutes strapi.plugins).foldl
    (setPluginPath strapi.apiPrefix) _ id = _
  rw [setPluginPath_foldl, setApiPath_foldl, mountedPath]
  cases latest Prod.fst id (pluginContentApiRoutes strapi.plugins) with
  | none =>
      show (if id ∈ flattenAll strapi.apis then _ else _) = _
      split <;> rfl
  | some mount =>
      show FlattenedRoute.withGlobalPath _ _ = _
      split <;> rfl

/-- Flattening an object again, whatever its middlewares, moves it nowhere. -/
theorem mountedPath_again (strapi : Strapi) {route other : FlattenedRoute Context}
    {id : RouteId} (hpath : other.path = route.path)
    (hown : other.ownPrefix = route.ownPrefix)
    (hglobal : other.globalPath = mountedPath strapi route id) :
    mountedPath strapi other id = mountedPath strapi route id := by
  unfold mountedPath pluginGlobalPath apiGlobalPath at hglobal ⊢
  rw [hpath, hown]
  cases hmount : latest Prod.fst id (pluginContentApiRoutes strapi.plugins) with
  | some mount => rfl
  | none =>
      rw [hmount, Option.map_none, Option.none_or] at hglobal
      rw [Option.map_none, Option.none_or, Option.none_or]
      by_cases hapi : id ∈ flattenAll strapi.apis
      · rw [if_pos hapi, if_pos hapi]
      · rw [if_neg hapi] at hglobal ⊢
        rw [if_neg hapi, hglobal]

theorem mountedPath_of_api {strapi : Strapi} {id : RouteId}
    (hapi : id ∈ flattenAll strapi.apis)
    (hplugin : id ∉ (pluginContentApiRoutes strapi.plugins).map Prod.fst)
    (route : FlattenedRoute Context) :
    mountedPath strapi route id = some (apiGlobalPath strapi.apiPrefix route) := by
  rw [mountedPath, latest_eq_none.mpr hplugin, if_pos hapi]
  rfl

end Boot
end RestCache
