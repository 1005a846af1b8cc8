import RestCache.Boot.Registered

/-!
# The table as a list of routes

The purges are studied over a table of routes that hold their middlewares
themselves.  As long as no object is in the table twice, the registration does to
that table what it does to the objects.
-/

namespace RestCache
namespace Boot

open Foundation
open Foundation.KeyedUpdate
open Strategy (HttpMethod CacheRouteConfig CacheContentTypeConfig
  CachePluginStrategy printed)

variable {Context : Type _}

def methodText : HttpMethod -> JsString
  | HttpMethod.GET => "GET".toList
  | HttpMethod.POST => "POST".toList
  | HttpMethod.PUT => "PUT".toList
  | HttpMethod.PATCH => "PATCH".toList
  | HttpMethod.DELETE => "DELETE".toList

/-!
## What the table shows
-/

def routeSeen (cacheRoute : CacheRouteConfig Context) :
    Config.CacheRouteConfig where
  path := cacheRoute.path
  method := methodText cacheRoute.method
  paramNames := cacheRoute.paramNames

def contentTypeSeen (cacheConf : CacheContentTypeConfig Context) :
    Config.CacheContentTypeConfig where
  contentType := printed cacheConf.contentType
  routes := cacheConf.routes.map routeSeen

def strategySeen (strategy : CachePluginStrategy Context) :
    Config.CachePluginStrategy where
  enableDocumentServiceMiddleware := strategy.enableDocumentServiceMiddleware
  contentTypes := strategy.contentTypes.map contentTypeSeen

/-- The plugin's own entries with their config, others by name. -/
def entrySeen : RouteMiddleware Context -> Config.RouteMiddleware
  | RouteMiddleware.uid text => Config.RouteMiddleware.named text
  | RouteMiddleware.handler _ => Config.RouteMiddleware.named []
  | RouteMiddleware.object name (MiddlewareConfig.cacheRouteConfig cacheRoute) =>
      if name = recvUid then Config.RouteMiddleware.recv (routeSeen cacheRoute)
      else Config.RouteMiddleware.named name
  | RouteMiddleware.object name (MiddlewareConfig.contentType uid) =>
      if name = purgeUid then Config.RouteMiddleware.purge (printed uid)
      else Config.RouteMiddleware.named name
  | RouteMiddleware.object name _ => Config.RouteMiddleware.named name

structure Shows (route : FlattenedRoute Context)
    (seen : Config.FlattenedRoute) : Prop where
  method : forall method,
    route.method = some method <-> seen.method = methodText method
  globalPath : route.globalPath = seen.globalPath
  middlewares : seen.middlewares = route.middlewares.map entrySeen

/-- The objects of the table, one by one. -/
def Represents (ids : List RouteId) (objects : Objects Context)
    (table : List Config.FlattenedRoute) : Prop :=
  List.Forall₂ (fun id seen => Shows (objects id) seen) ids table

/-!
## One entry
-/

theorem injectMiddleware_eq_upsert (middleware : Config.RouteMiddleware)
    (middlewares : List Config.RouteMiddleware) :
    Config.injectMiddleware middleware middlewares =
      upsert Config.RouteMiddleware.name middleware middlewares := by
  induction middlewares with
  | nil => rfl
  | cons other rest ih =>
      by_cases h : other.name = middleware.name
      · rw [upsert_cons_same h, Config.injectMiddleware, if_pos h]
      · rw [upsert_cons_other h, Config.injectMiddleware, if_neg h, ih]

theorem entrySeen_name {name : JsString} (hname : name ≠ [])
    (entry : RouteMiddleware Context) :
    (entrySeen entry).name = name <-> nameOf entry = some name := by
  cases entry with
  | uid text =>
      show text = name <-> some text = some name
      rw [Option.some.injEq]
  | handler index =>
      show [] = name <-> none = some name
      constructor
      · exact fun h => absurd h.symm hname
      · intro h
        cases h
  | object given config =>
      have hgiven : (entrySeen
          (RouteMiddleware.object given config)).name = given := by
        cases config with
        | cacheRouteConfig cacheRoute =>
            rw [entrySeen]
            split
            · rename_i hrecv
              rw [hrecv]
              rfl
            · rfl
        | contentType uid =>
            rw [entrySeen]
            split
            · rename_i hpurge
              rw [hpurge]
              rfl
            · rfl
        | empty => rfl
        | other value => rfl
      rw [hgiven]
      show given = name <-> some given = some name
      rw [Option.some.injEq]

theorem map_entrySeen_upsert {name : JsString} (hname : name ≠ [])
    (config : MiddlewareConfig Context)
    (middlewares : List (RouteMiddleware Context)) :
    (upsert nameOf (RouteMiddleware.object name config) middlewares).map
        entrySeen =
      Config.injectMiddleware (entrySeen (RouteMiddleware.object name config))
        (middlewares.map entrySeen) := by
  have hself : (entrySeen (RouteMiddleware.object name config)).name = name :=
    (entrySeen_name hname _).mpr rfl
  rw [injectMiddleware_eq_upsert]
  apply map_upsert
  intro entry
  rw [hself]
  exact entrySeen_name hname entry

theorem Shows.attach {route : FlattenedRoute Context}
    {seen : Config.FlattenedRoute} (h : Shows route seen) {name : JsString}
    (hname : name ≠ []) (config : MiddlewareConfig Context) :
    Shows (route.attach [RouteMiddleware.object name config])
      { seen with
        middlewares := Config.injectMiddleware
          (entrySeen (RouteMiddleware.object name config)) seen.middlewares } := by
  constructor
  · intro method
    rw [attach_method]
    exact h.method method
  · rw [attach_globalPath]
    exact h.globalPath
  · rw [attach_middlewares, h.middlewares]
    exact (map_entrySeen_upsert hname config route.middlewares).symm

theorem Shows.matchesRoute {route : FlattenedRoute Context}
    {seen : Config.FlattenedRoute} (h : Shows route seen)
    (cacheRoute : CacheRouteConfig Context) :
    Config.matchesRoute (routeSeen cacheRoute) seen =
      matchesRoute cacheRoute route := by
  unfold Config.matchesRoute Boot.matchesRoute
  rw [h.globalPath]
  congr 1
  exact decide_eq_decide.mpr (h.method cacheRoute.method).symm

/-!
## One configured route
-/

variable {strapi : Strapi} {strategy : CachePluginStrategy Context}
  {objects other after : Objects Context} {ids : List RouteId}
  {table : List Config.FlattenedRoute}

theorem attachTo_of_foundAt_none {cacheRoute : CacheRouteConfig Context}
    (htable : Represents ids objects table)
    (hnone : foundAt ids objects cacheRoute = none)
    (middleware : Config.RouteMiddleware) :
    Config.attachTo (routeSeen cacheRoute) middleware table = table := by
  induction htable with
  | nil => rfl
  | @cons id seen rest more hseen _ ih =>
      rw [foundAt, List.find?_cons] at hnone
      cases hmatch : matchesRoute cacheRoute (objects id) with
      | true =>
          rw [hmatch] at hnone
          cases hnone
      | false =>
          rw [hmatch] at hnone
          have hother := hseen.matchesRoute cacheRoute
          rw [hmatch] at hother
          rw [Config.attachTo, hother, ih hnone]
          rfl

/-- Attaching to the object that is found attaches to the first match. -/
theorem represents_attachTo {cacheRoute : CacheRouteConfig Context}
    {id : RouteId} {name : JsString} (hname : name ≠ [])
    (config : MiddlewareConfig Context) (hnodup : ids.Nodup)
    (htable : Represents ids objects table)
    (hfound : foundAt ids objects cacheRoute = some id) :
    Represents ids (attached [⟨id, name, config⟩] objects)
      (Config.attachTo (routeSeen cacheRoute)
        (entrySeen (RouteMiddleware.object name config)) table) := by
  have hone : forall other, attached [⟨id, name, config⟩] objects other =
      if id = other then
        (objects other).attach [RouteMiddleware.object name config]
      else objects other := by
    intro other
    rw [attached, entriesFor_cons]
    by_cases h : id = other
    · rw [if_pos h, if_pos h]
      rfl
    · rw [if_neg h, if_neg h]
      rfl
  induction htable with
  | nil => cases hfound
  | @cons first seen rest more hseen hrest ih =>
      rcases List.nodup_cons.mp hnodup with ⟨hfirst, hnodup⟩
      have hsame := hseen.matchesRoute cacheRoute
      rw [foundAt, List.find?_cons] at hfound
      cases hmatch : matchesRoute cacheRoute (objects first) with
      | true =>
          rw [hmatch, Option.some.injEq] at hfound
          subst hfound
          rw [Config.attachTo, hsame, hmatch, if_pos rfl]
          refine List.Forall₂.cons ?_ ?_
          · rw [hone, if_pos rfl]
            exact hseen.attach hname config
          · have hothers := (List.forall₂_and_left rest more).mpr
              ⟨fun other hmem => show first ≠ other from
                fun h => hfirst (h ▸ hmem), hrest⟩
            apply hothers.imp
            intro other more hboth
            rw [hone, if_neg hboth.left]
            exact hboth.right
      | false =>
          rw [hmatch] at hfound
          have hne : id ≠ first := by
            intro h
            exact hfirst (h ▸ List.mem_of_find?_eq_some hfound)
          rw [Config.attachTo, hsame, hmatch]
          refine List.Forall₂.cons ?_ (ih hnodup hfound)
          rw [hone, if_neg hne]
          exact hseen

theorem methodText_write (method : HttpMethod) :
    methodText method ∈ Config.writeMethods <-> method ≠ HttpMethod.GET := by
  cases method <;> decide

theorem middlewareFor_seen (strategy : CachePluginStrategy Context)
    (contentType : Option JsString) (cacheRoute : CacheRouteConfig Context)
    (id : RouteId) :
    Config.middlewareFor (strategySeen strategy) (printed contentType)
        (routeSeen cacheRoute) =
      (attachmentAt strategy contentType cacheRoute id).map
        (fun attachment => entrySeen attachment.entry) := by
  have hmethod : (routeSeen cacheRoute).method =
    methodText cacheRoute.method := rfl
  unfold Config.middlewareFor attachmentAt
  rw [hmethod]
  by_cases hget : cacheRoute.method = HttpMethod.GET
  · rw [if_neg (fun h => (methodText_write _).mp h hget), if_pos hget, hget]
    rfl
  · rw [if_pos ((methodText_write _).mpr hget), if_neg hget]
    show (if strategy.enableDocumentServiceMiddleware = true then _ else _) = _
    cases strategy.enableDocumentServiceMiddleware <;> rfl

theorem attachmentAt_name {contentType : Option JsString}
    {cacheRoute : CacheRouteConfig Context} {id : RouteId}
    {attachment : Attachment Context}
    (h : attachmentAt strategy contentType cacheRoute id = some attachment) :
    attachment.name ≠ [] := by
  rcases List.mem_cons.mp (attachmentAt_some h).right with hname | hname
  · rw [hname]
    decide
  · rw [List.mem_singleton.mp hname]
    decide

theorem represents_injectRoute (hnodup : ids.Nodup)
    (hother : SameTable objects other) (htable : Represents ids other table)
    (contentType : Option JsString) (cacheRoute : CacheRouteConfig Context) :
    Represents ids
      (attached (attachmentFor strategy ids objects contentType
        cacheRoute).toList other)
      (Config.injectRoute (strategySeen strategy) (printed contentType) table
        (routeSeen cacheRoute)) := by
  rw [attachmentFor, ← hother.foundAt]
  unfold Config.injectRoute
  cases hfound : foundAt ids other cacheRoute with
  | none =>
      split
      · exact htable
      · rename_i middleware _
        rw [attachTo_of_foundAt_none htable hfound]
        exact htable
  | some id =>
      rw [Option.bind_some, middlewareFor_seen strategy contentType cacheRoute id]
      cases hmade : attachmentAt strategy contentType cacheRoute id with
      | none => exact htable
      | some attachment =>
          have hid := (attachmentAt_some hmade).left
          have hname := attachmentAt_name hmade
          rcases attachment with ⟨found, name, config⟩
          rcases hid with rfl
          exact represents_attachTo hname config hnodup htable hfound

/-!
## All configured routes
-/

theorem represents_foldl {source : Type _}
    {given : source -> List (Attachment Context)}
    {visit : List Config.FlattenedRoute -> source -> List Config.FlattenedRoute}
    (h : forall x other table, SameTable objects other ->
      Represents ids other table ->
      Represents ids (attached (given x) other) (visit table x))
    (l : List source) {other : Objects Context}
    {table : List Config.FlattenedRoute} (hother : SameTable objects other)
    (htable : Represents ids other table) :
    Represents ids (attached (l.flatMap given) other) (l.foldl visit table) := by
  induction l generalizing other table with
  | nil => exact htable
  | cons x rest ih =>
      rw [List.flatMap_cons, ← attached_append]
      exact ih (sameTable_attached hother (given x)) (h x other table hother htable)

theorem represents_injectContentType (hnodup : ids.Nodup)
    (hother : SameTable objects other) (htable : Represents ids other table)
    (cacheConf : CacheContentTypeConfig Context) :
    Represents ids
      (attached (cacheConf.routes.filterMap
        (attachmentFor strategy ids objects cacheConf.contentType)) other)
      (Config.injectContentType (strategySeen strategy) table
        (contentTypeSeen cacheConf)) := by
  rw [← flatMap_toList, Config.injectContentType]
  show Represents ids _ ((cacheConf.routes.map routeSeen).foldl _ table)
  rw [List.foldl_map]
  exact represents_foldl
    (fun cacheRoute _ _ hother htable =>
      represents_injectRoute hnodup hother htable cacheConf.contentType cacheRoute)
    cacheConf.routes hother htable

theorem represents_apart {given : List (Attachment Context)}
    (hapart : forall attachment, attachment ∈ given -> attachment.id ∉ ids)
    (htable : Represents ids objects table) :
    Represents ids (attached given objects) table := by
  have hsame : forall id, id ∈ ids -> attached given objects id = objects id := by
    intro id hid
    have hnone : entriesFor given id = [] := by
      rw [entriesFor, List.filter_eq_nil_iff.mpr]
      · rfl
      · intro attachment hmem heq
        exact hapart attachment hmem (of_decide_eq_true heq ▸ hid)
    rw [attached, hnone, attach_nil]
  have hboth := (List.forall₂_and_left ids table).mpr ⟨hsame, htable⟩
  apply hboth.imp
  intro id seen h
  rw [h.left]
  exact h.right

/--
With every object once in the table, and none of them a route of the content
manager, the registration of the objects is the registration of the table.
-/
theorem injectMiddlewares_represents
    (hnodup : (tableOf strapi).Nodup)
    (hadmin : forall id, id ∈ tableOf strapi -> id ∉ searchedAdmin strapi strategy)
    (h : injectMiddlewares strapi strategy objects = Except.ok after)
    (htable : Represents (tableOf strapi) (flattenRoutes strapi objects).2 table) :
    Represents (tableOf strapi) after
      (Config.injectMiddlewares (strategySeen strategy) table) := by
  have hafter := (injectMiddlewares_ok.mp h).right.right
  rw [hafter, attachments, ← attached_append]
  apply represents_apart
  · intro attachment hmem hid
    rcases List.mem_filterMap.mp hmem with ⟨adminRoute, _, hmade⟩
    rcases Option.map_eq_some_iff.mp hmade with ⟨found, hfound, hattachment⟩
    rw [← hattachment] at hid
    exact hadmin found hid (List.mem_of_find?_eq_some hfound)
  · show Represents _ _ ((strategy.contentTypes.map contentTypeSeen).foldl _ table)
    rw [List.foldl_map]
    exact represents_foldl
      (fun cacheConf _ _ hother htable =>
        represents_injectContentType hnodup hother htable cacheConf)
      strategy.contentTypes (sameTable_refl _) htable

def newsSeen (method : HttpMethod) (path : Router.RoutePath)
    (h : path.all Router.Segment.wellFormed = true)
    (middlewares : List Config.RouteMiddleware) : Config.FlattenedRoute where
  method := methodText method
  path
  wellFormed := List.all_eq_true.mp h
  middlewares

def newsTable : List Config.FlattenedRoute :=
  [newsSeen HttpMethod.GET
      [Router.Segment.text "api".toList, Router.Segment.text "articles".toList]
      (by decide) [],
    newsSeen HttpMethod.PUT
      [Router.Segment.text "api".toList, Router.Segment.text "articles".toList,
        Router.Segment.param [] "id".toList none Config.Modifier.none]
      (by decide) [Config.RouteMiddleware.named "global::log".toList],
    newsSeen HttpMethod.GET
      [Router.Segment.text "api".toList, Router.Segment.text "users".toList]
      (by decide) []]

theorem methodText_inj {method given : HttpMethod} :
    some given = some method <-> methodText given = methodText method := by
  rw [Option.some.injEq]
  cases given <;> cases method <;> decide

theorem news_represents :
    Represents (tableOf newsStrapi) (flattenRoutes newsStrapi newsObjects).2
      newsTable := by
  have hshows : forall (id : RouteId) (method : HttpMethod)
      (seen : Config.FlattenedRoute),
      ((flattenRoutes newsStrapi newsObjects).2 id).method = some method ->
      seen.method = methodText method ->
      ((flattenRoutes newsStrapi newsObjects).2 id).globalPath =
        seen.globalPath ->
      seen.middlewares = ((flattenRoutes newsStrapi newsObjects).2
        id).middlewares.map entrySeen ->
      Shows ((flattenRoutes newsStrapi newsObjects).2 id) seen := by
    intro id method seen hmethod hseen hglobal hmiddlewares
    refine ⟨?_, hglobal, hmiddlewares⟩
    intro other
    rw [hmethod, hseen]
    exact methodText_inj
  show List.Forall₂ _ [0, 1, 3] newsTable
  exact List.Forall₂.cons (hshows 0 HttpMethod.GET _ rfl rfl rfl rfl)
    (List.Forall₂.cons (hshows 1 HttpMethod.PUT _ rfl rfl rfl rfl)
      (List.Forall₂.cons (hshows 3 HttpMethod.GET _ rfl rfl rfl rfl)
        List.Forall₂.nil))

theorem injectMiddlewares_represents_news :
    Represents (tableOf newsStrapi) newsAfter
      (Config.injectMiddlewares (strategySeen (newsStrategy false)) newsTable) :=
  injectMiddlewares_represents (by decide)
    (List.forall_iff_forall_mem.mp (by decide)) news_registration news_represents

end Boot
end RestCache
