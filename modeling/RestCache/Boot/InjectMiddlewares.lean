import RestCache.Boot.FlattenRoutes

/-!
# Injecting the middlewares

The plugin looks up each configured route in the table and changes the object it
finds.  What it looks at is never what it changes, so the objects and the entries
they get can be told before anything is injected.
-/

namespace RestCache
namespace Boot

open Foundation
open Foundation.KeyedUpdate
open Strategy (HttpMethod CacheRouteConfig CacheContentTypeConfig
  CachePluginStrategy)

variable {Context : Type _}

def recvUid : JsString :=
  "plugin::rest-cache.recv".toList

def purgeUid : JsString :=
  "plugin::rest-cache.purge".toList

def purgeAdminUid : JsString :=
  "plugin::rest-cache.purgeAdmin".toList

abbrev TypeError := JsString

/-!
## One route
-/

def isNamed (pluginUUid : JsString) : RouteMiddleware Context -> Bool
  | RouteMiddleware.uid text => text = pluginUUid
  | RouteMiddleware.object name _ => name = pluginUUid
  | RouteMiddleware.handler _ => false

def injectInto (pluginUUid : JsString) (config : MiddlewareConfig Context)
    (middlewares : List (RouteMiddleware Context)) :
    List (RouteMiddleware Context) :=
  match middlewares.findIdx? (isNamed pluginUUid) with
  | none => middlewares ++ [RouteMiddleware.object pluginUUid config]
  | some index => middlewares.set index (RouteMiddleware.object pluginUUid config)

def injectMiddleware (pluginUUid : JsString) (config : MiddlewareConfig Context)
    (route : FlattenedRoute Context) :
    Except TypeError (FlattenedRoute Context) :=
  match route.config with
  | RouteConfig.undefined =>
      Except.ok
        { route with
          config := RouteConfig.object
            (some [RouteMiddleware.object pluginUUid config]) false }
  | RouteConfig.null =>
      Except.error
        "Cannot read properties of null (reading 'middlewares')".toList
  | RouteConfig.object none ownPrefix =>
      Except.ok
        { route with
          config := RouteConfig.object
            (some [RouteMiddleware.object pluginUUid config]) ownPrefix }
  | RouteConfig.object (some middlewares) ownPrefix =>
      Except.ok
        { route with
          config := RouteConfig.object
            (some (injectInto pluginUUid config middlewares)) ownPrefix }

def injectAt (objects : Objects Context) (id : RouteId) (pluginUUid : JsString)
    (config : MiddlewareConfig Context) : Except TypeError (Objects Context) :=
  (injectMiddleware pluginUUid config (objects id)).map
    (Function.update objects id)

/-!
## The configured routes
-/

def matchesRoute (cacheRoute : CacheRouteConfig Context)
    (route : FlattenedRoute Context) : Bool :=
  route.method = some cacheRoute.method &&
    Config.normalizeRoutePath route.globalPath =
      Config.normalizeRoutePath (some cacheRoute.path)

def injectFound (strategy : CachePluginStrategy Context)
    (contentType : Option JsString) (cacheRoute : CacheRouteConfig Context)
    (objects : Objects Context) (id : RouteId) :
    Except TypeError (Objects Context) :=
  match (objects id).method with
  | none => Except.ok objects
  | some HttpMethod.GET =>
      injectAt objects id recvUid (MiddlewareConfig.cacheRouteConfig cacheRoute)
  | some _ =>
      if strategy.enableDocumentServiceMiddleware then Except.ok objects
      else
        injectAt objects id purgeUid (MiddlewareConfig.contentType contentType)

def injectRoute (strategy : CachePluginStrategy Context)
    (strapiRoutes : List RouteId) (contentType : Option JsString)
    (objects : Objects Context) (cacheRoute : CacheRouteConfig Context) :
    Except TypeError (Objects Context) :=
  match strapiRoutes.find? (fun id => matchesRoute cacheRoute (objects id)) with
  | none => Except.ok objects
  | some id => injectFound strategy contentType cacheRoute objects id

def injectContentType (strategy : CachePluginStrategy Context)
    (strapiRoutes : List RouteId) (objects : Objects Context)
    (cacheConf : CacheContentTypeConfig Context) :
    Except TypeError (Objects Context) :=
  cacheConf.routes.foldlM
    (injectRoute strategy strapiRoutes cacheConf.contentType) objects

/-!
## The content manager
-/

/-- The mutating routes of the content manager, in the order of the loops. -/
def adminRoutes : List (HttpMethod × JsString) :=
  ["/single-types/:model/actions/publish",
    "/single-types/:model/actions/unpublish",
    "/single-types/:model/actions/discard",
    "/collection-types/:model",
    "/collection-types/:model/clone/:sourceId",
    "/collection-types/:model/auto-clone/:sourceId",
    "/collection-types/:model/actions/publish",
    "/collection-types/:model/:id/actions/publish",
    "/collection-types/:model/:id/actions/unpublish",
    "/collection-types/:model/:id/actions/discard",
    "/collection-types/:model/actions/bulkDelete",
    "/collection-types/:model/actions/bulkPublish",
    "/collection-types/:model/actions/bulkUnpublish"].map
      (fun path => (HttpMethod.POST, path.toList)) ++
  ["/single-types/:model", "/collection-types/:model/:id"].map
      (fun path => (HttpMethod.PUT, path.toList)) ++
  ["/single-types/:model", "/collection-types/:model/:id"].map
      (fun path => (HttpMethod.DELETE, path.toList))

/-- What a loop over `routes.routes` visits; it throws without an array. -/
def PluginRouter.iterated (router : PluginRouter) :
    Except TypeError (List RouteId) :=
  match router.routes with
  | some routes => Except.ok routes
  | none => Except.error "routes.routes is not iterable".toList

def routesOfRouters (routers : List PluginRouter) :
    Except TypeError (List RouteId) :=
  (routers.mapM PluginRouter.iterated).map List.flatten

def contentManagerRoutes (strapi : Strapi) : Except TypeError (List RouteId) :=
  match strapi.plugins.find? (fun plugin =>
      plugin.name = "content-manager".toList) with
  | none =>
      Except.error
        "Cannot read properties of undefined (reading 'routes')".toList
  | some plugin =>
      match plugin.routes with
      | PluginRoutes.undefined =>
          Except.error "Cannot convert undefined or null to object".toList
      | PluginRoutes.array [] => Except.ok []
      | PluginRoutes.array _ =>
          Except.error "routes.routes is not iterable".toList
      | PluginRoutes.record routers => routesOfRouters routers

def injectAdmin (contentManager : List RouteId) (objects : Objects Context)
    (adminRoute : HttpMethod × JsString) : Except TypeError (Objects Context) :=
  match contentManager.find? (fun id =>
      (objects id).method = some adminRoute.1 &&
        (objects id).path = adminRoute.2) with
  | none => Except.ok objects
  | some id => injectAt objects id purgeAdminUid MiddlewareConfig.empty

def injectAdminRoutes (strapi : Strapi) (objects : Objects Context) :
    Except TypeError (Objects Context) :=
  (contentManagerRoutes strapi).bind fun contentManager =>
    adminRoutes.foldlM (injectAdmin contentManager) objects

/-- Whether the routes of the content manager get a middleware. -/
def injectsAdmin (strategy : CachePluginStrategy Context) : Bool :=
  strategy.enableAdminCTBMiddleware && !strategy.enableDocumentServiceMiddleware

def injectMiddlewares (strapi : Strapi) (strategy : CachePluginStrategy Context)
    (objects : Objects Context) : Except TypeError (Objects Context) :=
  let flattened := flattenRoutes strapi objects
  (strategy.contentTypes.foldlM (injectContentType strategy flattened.1)
    flattened.2).bind fun objects =>
      if injectsAdmin strategy then injectAdminRoutes strapi objects
      else Except.ok objects

/-!
## Entries on a route
-/

def nameOf : RouteMiddleware Context -> Option JsString
  | RouteMiddleware.uid text => some text
  | RouteMiddleware.object name _ => some name
  | RouteMiddleware.handler _ => none

theorem isNamed_iff (pluginUUid : JsString) (entry : RouteMiddleware Context) :
    isNamed pluginUUid entry = true <-> nameOf entry = some pluginUUid := by
  cases entry <;> simp [isNamed, nameOf]

theorem injectInto_eq_upsert (pluginUUid : JsString)
    (config : MiddlewareConfig Context)
    (middlewares : List (RouteMiddleware Context)) :
    injectInto pluginUUid config middlewares =
      upsert nameOf (RouteMiddleware.object pluginUUid config) middlewares := by
  unfold injectInto
  induction middlewares with
  | nil => rfl
  | cons entry rest ih =>
      rw [List.findIdx?_cons]
      cases hname : isNamed pluginUUid entry with
      | true =>
          rw [upsert_cons_same ((isNamed_iff pluginUUid entry).mp hname)]
          rfl
      | false =>
          have hother : nameOf entry ≠ some pluginUUid := by
            intro hsame
            rw [(isNamed_iff pluginUUid entry).mpr hsame] at hname
            cases hname
          rw [upsert_cons_other hother, ← ih]
          cases rest.findIdx? (isNamed pluginUUid) <;> rfl

def FlattenedRoute.middlewares (route : FlattenedRoute Context) :
    List (RouteMiddleware Context) :=
  match route.config with
  | RouteConfig.object (some middlewares) _ => middlewares
  | _ => []

def FlattenedRoute.attach (entries : List (RouteMiddleware Context))
    (route : FlattenedRoute Context) : FlattenedRoute Context :=
  if entries.isEmpty then route
  else
    { route with
      config := RouteConfig.object
        (some (upsertAll nameOf entries route.middlewares)) route.ownPrefix }

variable {route : FlattenedRoute Context}
  {entries : List (RouteMiddleware Context)}

theorem attach_method : (route.attach entries).method = route.method := by
  unfold FlattenedRoute.attach
  split <;> rfl

theorem attach_path : (route.attach entries).path = route.path := by
  unfold FlattenedRoute.attach
  split <;> rfl

theorem attach_globalPath :
    (route.attach entries).globalPath = route.globalPath := by
  unfold FlattenedRoute.attach
  split <;> rfl

theorem attach_ownPrefix :
    (route.attach entries).ownPrefix = route.ownPrefix := by
  unfold FlattenedRoute.attach
  split <;> rfl

theorem attach_middlewares :
    (route.attach entries).middlewares =
      upsertAll nameOf entries route.middlewares := by
  unfold FlattenedRoute.attach
  cases entries with
  | nil => rfl
  | cons entry rest => rfl

theorem attach_nil (route : FlattenedRoute Context) : route.attach [] = route :=
  rfl

theorem attach_cons (entry : RouteMiddleware Context)
    (rest : List (RouteMiddleware Context)) (route : FlattenedRoute Context) :
    route.attach (entry :: rest) =
      { method := route.method
        path := route.path
        globalPath := route.globalPath
        config := RouteConfig.object
          (some (upsertAll nameOf (entry :: rest) route.middlewares))
            route.ownPrefix } :=
  rfl

theorem attach_attach (more : List (RouteMiddleware Context)) :
    (route.attach entries).attach more = route.attach (entries ++ more) := by
  cases more with
  | nil => rw [attach_nil, List.append_nil]
  | cons entry rest =>
      rw [attach_cons, attach_middlewares, attach_ownPrefix, attach_method,
        attach_path, attach_globalPath, ← upsertAll_append]
      cases entries <;> rfl

theorem attach_config_null :
    (route.attach entries).config = RouteConfig.null <->
      route.config = RouteConfig.null ∧ entries = [] := by
  cases entries with
  | nil => simp [attach_nil]
  | cons entry rest => simp [FlattenedRoute.attach]

theorem injectMiddleware_ok {pluginUUid : JsString}
    {config : MiddlewareConfig Context} {other : FlattenedRoute Context} :
    injectMiddleware pluginUUid config route = Except.ok other <->
      route.config ≠ RouteConfig.null ∧
        other = route.attach [RouteMiddleware.object pluginUUid config] := by
  unfold injectMiddleware FlattenedRoute.attach FlattenedRoute.middlewares
    FlattenedRoute.ownPrefix
  cases hconfig : route.config with
  | undefined => simp [upsertAll, upsert, eq_comm]
  | null => simp
  | object middlewares ownPrefix =>
      cases middlewares with
      | none => simp [upsertAll, upsert, eq_comm]
      | some middlewares =>
          simp [injectInto_eq_upsert, upsertAll, eq_comm]

/-!
## What is attached where
-/

structure Attachment (Context : Type _) where
  id : RouteId
  name : JsString
  config : MiddlewareConfig Context

def Attachment.entry (attachment : Attachment Context) :
    RouteMiddleware Context :=
  RouteMiddleware.object attachment.name attachment.config

def entriesFor (attachments : List (Attachment Context)) (id : RouteId) :
    List (RouteMiddleware Context) :=
  (attachments.filter (fun attachment => attachment.id = id)).map
    Attachment.entry

def attached (attachments : List (Attachment Context))
    (objects : Objects Context) : Objects Context :=
  fun id => (objects id).attach (entriesFor attachments id)

def attachAll (attachments : List (Attachment Context))
    (objects : Objects Context) : Except TypeError (Objects Context) :=
  attachments.foldlM
    (fun objects attachment =>
      injectAt objects attachment.id attachment.name attachment.config) objects

theorem entriesFor_cons (attachment : Attachment Context)
    (rest : List (Attachment Context)) (id : RouteId) :
    entriesFor (attachment :: rest) id =
      (if attachment.id = id then [attachment.entry] else []) ++
        entriesFor rest id := by
  unfold entriesFor
  by_cases h : attachment.id = id <;> simp [h]

theorem entriesFor_append (attachments more : List (Attachment Context))
    (id : RouteId) :
    entriesFor (attachments ++ more) id =
      entriesFor attachments id ++ entriesFor more id := by
  unfold entriesFor
  rw [List.filter_append, List.map_append]

theorem attached_append (attachments more : List (Attachment Context))
    (objects : Objects Context) :
    attached more (attached attachments objects) =
      attached (attachments ++ more) objects := by
  funext id
  show ((objects id).attach _).attach _ = _
  rw [attach_attach, ← entriesFor_append]
  rfl

/-- No object that gets an entry has `null` for its config. -/
def Writable (attachments : List (Attachment Context))
    (objects : Objects Context) : Prop :=
  forall attachment, attachment ∈ attachments ->
    (objects attachment.id).config ≠ RouteConfig.null

theorem injectAt_ok {objects after : Objects Context} {id : RouteId}
    {pluginUUid : JsString} {config : MiddlewareConfig Context} :
    injectAt objects id pluginUUid config = Except.ok after <->
      (objects id).config ≠ RouteConfig.null ∧
        after = attached [⟨id, pluginUUid, config⟩] objects := by
  have hone : attached [⟨id, pluginUUid, config⟩] objects =
      Function.update objects id
        ((objects id).attach [RouteMiddleware.object pluginUUid config]) := by
    funext other
    by_cases h : other = id
    · subst h
      rw [Function.update_self]
      simp [attached, entriesFor, Attachment.entry]
    · rw [Function.update_of_ne h]
      simp [attached, entriesFor, Ne.symm h, attach_nil]
  unfold injectAt
  rw [map_eq_ok, hone]
  constructor
  · intro h
    rcases h with ⟨route, hroute, hafter⟩
    rcases injectMiddleware_ok.mp hroute with ⟨hnull, heq⟩
    exact ⟨hnull, by rw [← hafter, heq]⟩
  · intro h
    exact ⟨_, injectMiddleware_ok.mpr ⟨h.left, rfl⟩, h.right.symm⟩

theorem attachAll_ok {attachments : List (Attachment Context)}
    {objects after : Objects Context} :
    attachAll attachments objects = Except.ok after <->
      Writable attachments objects ∧ after = attached attachments objects := by
  induction attachments generalizing objects with
  | nil =>
      have hnil : attached [] objects = objects := rfl
      rw [attachAll, List.foldlM_nil, hnil]
      simp [Writable, pure, Except.pure, eq_comm]
  | cons attachment rest ih =>
      have hcons : attachAll (attachment :: rest) objects =
          (injectAt objects attachment.id attachment.name
            attachment.config).bind (attachAll rest) := by
        rw [attachAll, List.foldlM_cons]
        rfl
      have hlater : forall id,
          (attached [attachment] objects id).config = RouteConfig.null <->
            (objects id).config = RouteConfig.null ∧ attachment.id ≠ id := by
        intro id
        rw [attached, attach_config_null]
        simp [entriesFor, List.filter_cons]
      rw [hcons, bind_eq_ok]
      constructor
      · intro h
        rcases h with ⟨next, hnext, hrest⟩
        rcases injectAt_ok.mp hnext with ⟨hnull, hone⟩
        rcases ih.mp hrest with ⟨hwritable, hafter⟩
        rw [hone] at hwritable hafter
        constructor
        · intro other hother
          rcases List.mem_cons.mp hother with hhead | htail
          · rw [hhead]
            exact hnull
          · intro hbad
            by_cases hsame : attachment.id = other.id
            · rw [← hsame] at hbad
              exact hnull hbad
            · exact hwritable other htail ((hlater other.id).mpr ⟨hbad, hsame⟩)
        · rw [hafter, attached_append]
          rfl
      · intro h
        rcases h with ⟨hwritable, hafter⟩
        refine ⟨attached [attachment] objects,
          injectAt_ok.mpr ⟨hwritable attachment List.mem_cons_self, rfl⟩,
          ih.mpr ⟨?_, ?_⟩⟩
        · intro other hother hbad
          exact hwritable other (List.mem_cons_of_mem attachment hother)
            ((hlater other.id).mp hbad).left
        · rw [hafter, attached_append]
          rfl

end Boot
end RestCache
