import Mathlib.Data.List.Find
import RestCache.Boot.Attachments

/-!
# The registered routes

What the registration leaves on every route object: the entry of the last
configured route that was found there, and everything else as it was.
-/

namespace RestCache
namespace Boot

open Foundation
open Foundation.KeyedUpdate
open Strategy (HttpMethod CacheRouteConfig CacheContentTypeConfig
  CachePluginStrategy)

variable {Context : Type _}

/-- The configured routes in the order of the loops, with their content types. -/
def configured (strategy : CachePluginStrategy Context) :
    List (Option JsString × CacheRouteConfig Context) :=
  strategy.contentTypes.flatMap fun cacheConf =>
    cacheConf.routes.map fun cacheRoute => (cacheConf.contentType, cacheRoute)

section Outcome

variable (strapi : Strapi) (strategy : CachePluginStrategy Context)
  (objects : Objects Context)

/-- The configured routes that are found at this object. -/
def assigned (id : RouteId) :
    List (Option JsString × CacheRouteConfig Context) :=
  (configured strategy).filter fun z =>
    foundAt (flattenRoutes strapi objects).1 (flattenRoutes strapi objects).2
      z.2 = some id

def recvFor (id : RouteId) : Option (RouteMiddleware Context) :=
  if (objects id).method = some HttpMethod.GET then
    (assigned strapi strategy objects id).getLast?.map fun z =>
      RouteMiddleware.object recvUid (MiddlewareConfig.cacheRouteConfig z.2)
  else
    none

def purgeFor (id : RouteId) : Option (RouteMiddleware Context) :=
  if (objects id).method = some HttpMethod.GET then none
  else if strategy.enableDocumentServiceMiddleware then none
  else
    (assigned strapi strategy objects id).getLast?.map fun z =>
      RouteMiddleware.object purgeUid (MiddlewareConfig.contentType z.1)

def purgeAdminFor (id : RouteId) : Option (RouteMiddleware Context) :=
  if adminRoutes.any (fun adminRoute =>
      adminFoundAt (searchedAdmin strapi strategy)
        (flattenRoutes strapi objects).2 adminRoute = some id) then
    some (RouteMiddleware.object purgeAdminUid MiddlewareConfig.empty)
  else
    none

def isForeign (name : Option JsString) : Bool :=
  name ∉ [some recvUid, some purgeUid, some purgeAdminUid]

/-- What the registration makes of one object. -/
structure Registered (id : RouteId) (after : FlattenedRoute Context) : Prop where
  method : after.method = (objects id).method
  path : after.path = (objects id).path
  globalPath : after.globalPath = mountedPath strapi (objects id) id
  recv : first nameOf (some recvUid) after.middlewares =
    (recvFor strapi strategy objects id).or
      (first nameOf (some recvUid) (objects id).middlewares)
  purge : first nameOf (some purgeUid) after.middlewares =
    (purgeFor strapi strategy objects id).or
      (first nameOf (some purgeUid) (objects id).middlewares)
  purgeAdmin : first nameOf (some purgeAdminUid) after.middlewares =
    (purgeAdminFor strapi strategy objects id).or
      (first nameOf (some purgeAdminUid) (objects id).middlewares)
  foreign : after.middlewares.filter (fun entry => isForeign (nameOf entry)) =
    (objects id).middlewares.filter (fun entry => isForeign (nameOf entry))
  once : forall name,
    occurrences nameOf name (objects id).middlewares <= 1 ->
      occurrences nameOf name after.middlewares <= 1

end Outcome

/-!
## The entries of one object
-/

theorem filter_filterMap_eq {source target : Type _} {f : source -> Option target}
    {p : target -> Bool} {q : source -> Bool} {h : source -> target}
    (hpick : forall x, (f x).filter p = if q x then some (h x) else none)
    (l : List source) :
    (l.filterMap f).filter p = (l.filter q).map h := by
  rw [List.filter_filterMap, funext hpick]
  induction l with
  | nil => rfl
  | cons x rest ih =>
      cases hqx : q x with
      | false => simp [hqx, ih]
      | true => simp [hqx, ih]

theorem latest_entriesFor (given : List (Attachment Context)) (id : RouteId)
    (name : JsString) :
    latest nameOf (some name) (entriesFor given id) =
      (given.filter (fun attachment =>
        attachment.id = id && attachment.name = name)).getLast?.map
          Attachment.entry := by
  rw [latest_eq_getLast?, entriesFor, List.filter_map, List.getLast?_map,
    List.filter_filter]
  congr 3
  funext attachment
  rw [Bool.and_comm]
  simp [Attachment.entry, nameOf]

theorem contentTypeAttachments_eq (strategy : CachePluginStrategy Context)
    (strapiRoutes : List RouteId) (objects : Objects Context) :
    contentTypeAttachments strategy strapiRoutes objects =
      (configured strategy).filterMap fun z =>
        attachmentFor strategy strapiRoutes objects z.1 z.2 := by
  unfold contentTypeAttachments configured
  induction strategy.contentTypes with
  | nil => rfl
  | cons cacheConf rest ih =>
      rw [List.flatMap_cons, List.flatMap_cons, List.filterMap_append, ih,
        List.filterMap_map]
      rfl

variable {strapi : Strapi} {strategy : CachePluginStrategy Context}
  {objects after : Objects Context} {id : RouteId}

theorem flattened_method (strapi : Strapi) (objects : Objects Context)
    (id : RouteId) :
    ((flattenRoutes strapi objects).2 id).method = (objects id).method := by
  rw [flattenRoutes_objects]

theorem flattened_middlewares (strapi : Strapi) (objects : Objects Context)
    (id : RouteId) :
    ((flattenRoutes strapi objects).2 id).middlewares =
      (objects id).middlewares := by
  rw [flattenRoutes_objects]
  rfl

theorem method_of_assigned {z : Option JsString × CacheRouteConfig Context}
    (h : z ∈ assigned strapi strategy objects id) :
    (objects id).method = some z.2.method := by
  have hfound := of_decide_eq_true (List.mem_filter.mp h).right
  rw [← flattened_method strapi]
  exact method_of_matchesRoute (foundAt_some hfound).right

theorem filter_contentTypeAttachments (name : JsString) (id : RouteId)
    {kept : Option JsString × CacheRouteConfig Context -> Bool}
    {made : Option JsString × CacheRouteConfig Context -> Attachment Context}
    (h : forall z, foundAt (flattenRoutes strapi objects).1
        (flattenRoutes strapi objects).2 z.2 = some id ->
      (attachmentFor strategy (flattenRoutes strapi objects).1
        (flattenRoutes strapi objects).2 z.1 z.2).filter
          (fun attachment => attachment.id = id && attachment.name = name) =
        if kept z then some (made z) else none) :
    (contentTypeAttachments strategy (flattenRoutes strapi objects).1
      (flattenRoutes strapi objects).2).filter
        (fun attachment => attachment.id = id && attachment.name = name) =
      ((assigned strapi strategy objects id).filter kept).map made := by
  rw [contentTypeAttachments_eq, assigned, List.filter_filter]
  apply filter_filterMap_eq
  intro z
  by_cases hfound : foundAt (flattenRoutes strapi objects).1
      (flattenRoutes strapi objects).2 z.2 = some id
  · rw [h z hfound]
    simp [hfound]
  · have hnone : (attachmentFor strategy (flattenRoutes strapi objects).1
        (flattenRoutes strapi objects).2 z.1 z.2).filter
          (fun attachment => attachment.id = id && attachment.name = name) =
        none := by
      rw [Option.filter_eq_none_iff]
      intro attachment hattachment hboth
      rw [attachmentFor, Option.bind_eq_some_iff] at hattachment
      rcases hattachment with ⟨found, hat, hmade⟩
      apply hfound
      rw [Bool.and_eq_true] at hboth
      rw [hat, ← (attachmentAt_some hmade).left, of_decide_eq_true hboth.left]
    rw [hnone]
    simp [hfound]

theorem adminAttachments_name {contentManager : List RouteId}
    {attachment : Attachment Context}
    (h : attachment ∈ adminAttachments contentManager objects) :
    attachment.name = purgeAdminUid := by
  unfold adminAttachments at h
  rcases List.mem_filterMap.mp h with ⟨adminRoute, _, hmade⟩
  rcases Option.map_eq_some_iff.mp hmade with ⟨found, _, heq⟩
  rw [← heq]

theorem filter_adminAttachments {contentManager : List RouteId}
    {name : JsString} (hname : name ≠ purgeAdminUid) (id : RouteId) :
    (adminAttachments contentManager objects).filter
      (fun attachment => attachment.id = id && attachment.name = name) = [] := by
  rw [List.filter_eq_nil_iff]
  intro attachment hmem hboth
  rw [Bool.and_eq_true] at hboth
  have hbad := of_decide_eq_true hboth.right
  rw [adminAttachments_name hmem] at hbad
  exact hname hbad.symm

theorem recvUid_ne_purgeUid : recvUid ≠ purgeUid := by decide

theorem recvUid_ne_purgeAdminUid : recvUid ≠ purgeAdminUid := by decide

theorem purgeUid_ne_purgeAdminUid : purgeUid ≠ purgeAdminUid := by decide

theorem assigned_get (h : (objects id).method = some HttpMethod.GET)
    {z : Option JsString × CacheRouteConfig Context}
    (hz : z ∈ assigned strapi strategy objects id) :
    z.2.method = HttpMethod.GET := by
  rw [method_of_assigned hz, Option.some.injEq] at h
  exact h

theorem assigned_not_get (h : (objects id).method ≠ some HttpMethod.GET)
    {z : Option JsString × CacheRouteConfig Context}
    (hz : z ∈ assigned strapi strategy objects id) :
    z.2.method ≠ HttpMethod.GET := by
  intro hget
  rw [method_of_assigned hz, hget] at h
  exact h rfl

theorem latest_recv (strapi : Strapi) (strategy : CachePluginStrategy Context)
    (objects : Objects Context) (id : RouteId) :
    latest nameOf (some recvUid)
      (entriesFor (attachments strapi strategy objects) id) =
        recvFor strapi strategy objects id := by
  have hcontent := @filter_contentTypeAttachments Context strapi strategy objects
    recvUid id (fun z => z.2.method = HttpMethod.GET)
    (fun z => ⟨id, recvUid, MiddlewareConfig.cacheRouteConfig z.2⟩) (by
      intro z hfound
      rw [attachmentFor, hfound, Option.bind_some, attachmentAt]
      by_cases hget : z.2.method = HttpMethod.GET
      · simp [hget]
      · cases strategy.enableDocumentServiceMiddleware with
        | true => simp [hget]
        | false => simp [hget, Ne.symm recvUid_ne_purgeUid])
  rw [latest_entriesFor, attachments, List.filter_append,
    filter_adminAttachments recvUid_ne_purgeAdminUid, List.append_nil, hcontent,
    List.getLast?_map, Option.map_map, recvFor]
  by_cases hmethod : (objects id).method = some HttpMethod.GET
  · rw [if_pos hmethod, List.filter_eq_self.mpr
      (fun z hz => decide_eq_true (assigned_get hmethod hz))]
    rfl
  · rw [if_neg hmethod, List.filter_eq_nil_iff.mpr
      (fun z hz hget => assigned_not_get hmethod hz (of_decide_eq_true hget))]
    rfl

theorem latest_purge (strapi : Strapi) (strategy : CachePluginStrategy Context)
    (objects : Objects Context) (id : RouteId) :
    latest nameOf (some purgeUid)
      (entriesFor (attachments strapi strategy objects) id) =
        purgeFor strapi strategy objects id := by
  have hcontent := @filter_contentTypeAttachments Context strapi strategy objects
    purgeUid id
    (fun z => z.2.method ≠ HttpMethod.GET &&
      !strategy.enableDocumentServiceMiddleware)
    (fun z => ⟨id, purgeUid, MiddlewareConfig.contentType z.1⟩) (by
      intro z hfound
      rw [attachmentFor, hfound, Option.bind_some, attachmentAt]
      by_cases hget : z.2.method = HttpMethod.GET
      · simp [hget, recvUid_ne_purgeUid]
      · cases strategy.enableDocumentServiceMiddleware with
        | true => simp [hget]
        | false => simp [hget])
  rw [latest_entriesFor, attachments, List.filter_append,
    filter_adminAttachments purgeUid_ne_purgeAdminUid, List.append_nil, hcontent,
    List.getLast?_map, Option.map_map, purgeFor]
  by_cases hmethod : (objects id).method = some HttpMethod.GET
  · rw [if_pos hmethod, List.filter_eq_nil_iff.mpr]
    · rfl
    · intro z hz
      simp [assigned_get hmethod hz]
  · rw [if_neg hmethod]
    cases hservice : strategy.enableDocumentServiceMiddleware with
    | true =>
        rw [List.filter_eq_nil_iff.mpr]
        · rfl
        · intro z hz
          simp
    | false =>
        rw [List.filter_eq_self.mpr]
        · rfl
        · intro z hz
          simp [assigned_not_get hmethod hz]

theorem latest_purgeAdmin (strapi : Strapi)
    (strategy : CachePluginStrategy Context) (objects : Objects Context)
    (id : RouteId) :
    latest nameOf (some purgeAdminUid)
      (entriesFor (attachments strapi strategy objects) id) =
        purgeAdminFor strapi strategy objects id := by
  have hcontent := @filter_contentTypeAttachments Context strapi strategy objects
    purgeAdminUid id (fun _ => false)
    (fun z => ⟨id, recvUid, MiddlewareConfig.cacheRouteConfig z.2⟩) (by
      intro z hfound
      rw [attachmentFor, hfound, Option.bind_some, attachmentAt]
      by_cases hget : z.2.method = HttpMethod.GET
      · simp [hget, recvUid_ne_purgeAdminUid]
      · cases strategy.enableDocumentServiceMiddleware with
        | true => simp [hget]
        | false => simp [hget, purgeUid_ne_purgeAdminUid])
  have hadmin : (adminAttachments (searchedAdmin strapi strategy)
      (flattenRoutes strapi objects).2).filter
        (fun attachment =>
          attachment.id = id && attachment.name = purgeAdminUid) =
      (adminRoutes.filter (fun adminRoute =>
        adminFoundAt (searchedAdmin strapi strategy)
          (flattenRoutes strapi objects).2 adminRoute = some id)).map
            (fun _ => ⟨id, purgeAdminUid, MiddlewareConfig.empty⟩) := by
    apply filter_filterMap_eq
    intro adminRoute
    cases adminFoundAt (searchedAdmin strapi strategy)
        (flattenRoutes strapi objects).2 adminRoute with
    | none => rfl
    | some found =>
        by_cases hsame : found = id
        · simp [hsame]
        · simp [hsame]
  rw [latest_entriesFor, attachments, List.filter_append, hcontent, hadmin,
    List.filter_false, List.map_nil, List.nil_append, purgeAdminFor]
  split
  · rename_i hany
    rcases List.any_eq_true.mp hany with ⟨adminRoute, hmem, hfound⟩
    have hne : (adminRoutes.filter (fun adminRoute =>
        adminFoundAt (searchedAdmin strapi strategy)
          (flattenRoutes strapi objects).2 adminRoute = some id)) ≠ [] :=
      List.ne_nil_of_mem (List.mem_filter.mpr ⟨hmem, hfound⟩)
    rw [List.getLast?_map, List.getLast?_eq_some_getLast hne]
    rfl
  · rename_i hany
    rw [List.filter_eq_nil_iff.mpr]
    · rfl
    · intro adminRoute hmem hfound
      exact hany (List.any_eq_true.mpr ⟨adminRoute, hmem, hfound⟩)

theorem entriesFor_not_foreign {entry : RouteMiddleware Context}
    (h : entry ∈ entriesFor (attachments strapi strategy objects) id) :
    isForeign (nameOf entry) = false := by
  rcases List.mem_map.mp h with ⟨attachment, hmem, heq⟩
  have hname : attachment.name ∈ [recvUid, purgeUid, purgeAdminUid] := by
    rcases List.mem_append.mp (List.mem_filter.mp hmem).left with
      hcontent | hadmin
    · rw [contentTypeAttachments_eq] at hcontent
      rcases List.mem_filterMap.mp hcontent with ⟨z, _, hmade⟩
      rw [attachmentFor, Option.bind_eq_some_iff] at hmade
      rcases hmade with ⟨found, _, hmade⟩
      exact List.mem_append_left [purgeAdminUid] (attachmentAt_some hmade).right
    · rw [adminAttachments_name hadmin]
      simp
  rw [← heq]
  simpa [isForeign, Attachment.entry, nameOf, or_iff_not_imp_left] using hname

theorem injectMiddlewares_object
    (h : injectMiddlewares strapi strategy objects = Except.ok after)
    (id : RouteId) :
    after id = ((flattenRoutes strapi objects).2 id).attach
      (entriesFor (attachments strapi strategy objects) id) := by
  rw [(injectMiddlewares_ok.mp h).right.right]
  rfl

theorem injected_method
    (h : injectMiddlewares strapi strategy objects = Except.ok after)
    (id : RouteId) : (after id).method = (objects id).method := by
  rw [injectMiddlewares_object h, attach_method, flattened_method]

theorem injected_middlewares
    (h : injectMiddlewares strapi strategy objects = Except.ok after)
    (id : RouteId) : (after id).middlewares = upsertAll nameOf
      (entriesFor (attachments strapi strategy objects) id)
        (objects id).middlewares := by
  rw [injectMiddlewares_object h, attach_middlewares, flattened_middlewares]

theorem injected_recv
    (h : injectMiddlewares strapi strategy objects = Except.ok after)
    (id : RouteId) : first nameOf recvUid (after id).middlewares =
      (recvFor strapi strategy objects id).or
        (first nameOf recvUid (objects id).middlewares) := by
  rw [injected_middlewares h, first_upsertAll, latest_recv]

/--
The registration leaves on an object the entry of the last configured route that
was found there, once, and the other middlewares as they were.
-/
theorem injectMiddlewares_registered
    (h : injectMiddlewares strapi strategy objects = Except.ok after)
    (id : RouteId) : Registered strapi strategy objects id (after id) := by
  have hafter := injectMiddlewares_object h id
  have hlist := injected_middlewares h id
  constructor
  · exact injected_method h id
  · rw [hafter, attach_path, flattenRoutes_objects]
  · rw [hafter, attach_globalPath, flattenRoutes_objects]
  · exact injected_recv h id
  · rw [hlist, first_upsertAll, latest_purge]
  · rw [hlist, first_upsertAll, latest_purgeAdmin]
  · rw [hlist]
    exact filter_upsertAll (fun entry hentry => entriesFor_not_foreign hentry) _
  · intro name hone
    rw [hlist]
    exact occurrences_upsertAll _ hone

/-!
## Registering again

Strapi hands the same route objects to every load in a process.
-/

theorem flattened_again (h : injectMiddlewares strapi strategy objects =
      Except.ok after) :
    flattenRoutes strapi after = (tableOf strapi, after) := by
  have hobjects : (flattenRoutes strapi after).2 = after := by
    funext id
    have hid := injectMiddlewares_object h id
    have hglobal : (after id).globalPath = mountedPath strapi (objects id) id := by
      rw [hid, attach_globalPath, flattenRoutes_objects]
    have hagain : mountedPath strapi (after id) id =
        mountedPath strapi (objects id) id := by
      apply mountedPath_again strapi _ _ hglobal
      · rw [hid, attach_path, flattenRoutes_objects]
      · rw [hid, attach_ownPrefix, flattenRoutes_objects]
        rfl
    rw [flattenRoutes_objects, hagain, ← hglobal]
  exact Prod.ext rfl hobjects

/-- A second registration leaves every object as the first one left it. -/
theorem injectMiddlewares_again
    (h : injectMiddlewares strapi strategy objects = Except.ok after) :
    injectMiddlewares strapi strategy after = Except.ok after := by
  rcases injectMiddlewares_ok.mp h with ⟨hadmin, hwritable, hafter⟩
  have hflat := flattened_again h
  have hsame : SameTable (flattenRoutes strapi objects).2 after := by
    rw [hafter]
    exact sameTable_attached (sameTable_refl _) _
  have hattachments : attachments strapi strategy after =
      attachments strapi strategy objects := by
    show contentTypeAttachments strategy (flattenRoutes strapi after).1
        (flattenRoutes strapi after).2 ++ _ = _
    rw [hflat, hsame.contentTypeAttachments, hsame.adminAttachments]
    rfl
  rw [injectMiddlewares_ok, hattachments, hflat]
  refine ⟨hadmin, ?_, ?_⟩
  · intro attachment hmem hnull
    have hbefore : (after attachment.id).config = RouteConfig.null := hnull
    rw [injectMiddlewares_object h, attach_config_null] at hbefore
    exact hwritable attachment hmem hbefore.left
  · funext id
    show after id = (after id).attach _
    rw [injectMiddlewares_object h, attach_attach]
    cases entriesFor (attachments strapi strategy objects) id with
    | nil => rfl
    | cons entry rest =>
        rw [List.cons_append, attach_cons, attach_cons, ← List.cons_append,
          upsertAll_append, upsertAll_idem]

/-!
## More plugins

The routes of plugins come after those of the APIs, so whatever plugins are
installed, the routes of the APIs get the same middlewares.
-/

def PluginRoutes.ids : PluginRoutes -> List RouteId
  | undefined => []
  | array routes => routes
  | record routers => routers.flatMap (fun router => router.routes.getD [])

def pluginIds (plugins : List Plugin) : List RouteId :=
  plugins.flatMap (fun plugin => plugin.routes.ids)

theorem mem_pluginIds_of_mounted {plugins : List Plugin}
    (h : id ∈ (pluginContentApiRoutes plugins).map Prod.fst) :
    id ∈ pluginIds plugins := by
  rcases List.mem_map.mp h with ⟨mount, hmount, rfl⟩
  rcases List.mem_flatMap.mp hmount with ⟨plugin, hplugin, hrouters⟩
  apply List.mem_flatMap.mpr
  refine ⟨plugin, hplugin, ?_⟩
  cases hroutes : plugin.routes with
  | undefined => simp [hroutes] at hrouters
  | array routes => simp [hroutes] at hrouters
  | record routers =>
      rw [hroutes] at hrouters
      rcases List.mem_flatMap.mp hrouters with ⟨router, hrouter, hmem⟩
      apply List.mem_flatMap.mpr
      refine ⟨router, hrouter, ?_⟩
      unfold contentApiRoutes at hmem
      cases hlist : router.routes with
      | none => simp [hlist] at hmem
      | some routes =>
          simp only [hlist] at hmem
          split at hmem
          · rcases List.mem_map.mp hmem with ⟨other, hother, heq⟩
            rw [← heq]
            exact hother
          · exact absurd hmem List.not_mem_nil

theorem mem_pluginIds_of_contentManager {strapi : Strapi} {routes : List RouteId}
    (h : contentManagerRoutes strapi = Except.ok routes) (hid : id ∈ routes) :
    id ∈ pluginIds strapi.plugins := by
  unfold contentManagerRoutes at h
  split at h
  · cases h
  · rename_i plugin hplugin
    apply List.mem_flatMap.mpr
    refine ⟨plugin, List.mem_of_find?_eq_some hplugin, ?_⟩
    cases hroutes : plugin.routes with
    | undefined => simp [hroutes] at h
    | array given =>
        cases given with
        | nil =>
            simp only [hroutes, Except.ok.injEq] at h
            rw [← h] at hid
            exact absurd hid List.not_mem_nil
        | cons first rest => simp [hroutes] at h
    | record routers =>
        simp only [hroutes] at h
        unfold routesOfRouters at h
        rcases map_eq_ok.mp h with ⟨groups, hgroups, hflat⟩
        rw [← hflat] at hid
        rcases List.mem_flatten.mp hid with ⟨group, hgroup, hmem⟩
        rcases exists_related_right (mapM_eq_ok.mp hgroups) hgroup with
          ⟨router, hrouter, hiterated⟩
        apply List.mem_flatMap.mpr
        refine ⟨router, hrouter, ?_⟩
        unfold PluginRouter.iterated at hiterated
        cases hlist : router.routes with
        | none => simp [hlist] at hiterated
        | some given =>
            simp only [hlist, Except.ok.injEq] at hiterated
            rw [hiterated]
            exact hmem

theorem foundAt_api {plugins : List Plugin}
    (hapart : forall id, id ∈ flattenAll strapi.apis ->
      id ∉ pluginIds strapi.plugins)
    (hother : forall id, id ∈ flattenAll strapi.apis -> id ∉ pluginIds plugins)
    (hid : id ∈ flattenAll strapi.apis)
    (cacheRoute : CacheRouteConfig Context) :
    foundAt (flattenRoutes { strapi with plugins } objects).1
        (flattenRoutes { strapi with plugins } objects).2 cacheRoute = some id <->
      foundAt (flattenRoutes strapi objects).1 (flattenRoutes strapi objects).2
        cacheRoute = some id := by
  have hone : forall given : Strapi, given.apis = strapi.apis ->
      given.apiPrefix = strapi.apiPrefix ->
      (forall id, id ∈ flattenAll strapi.apis -> id ∉ pluginIds given.plugins) ->
      (foundAt (flattenRoutes given objects).1 (flattenRoutes given objects).2
          cacheRoute = some id <->
        (flattenAll strapi.apis).find? (fun id => matchesRoute cacheRoute
          ((objects id).withGlobalPath
            (apiGlobalPath strapi.apiPrefix (objects id)))) = some id) := by
    intro given hapis hprefix hgiven
    have htable : (flattenRoutes given objects).1 = flattenAll strapi.apis ++
        (pluginContentApiRoutes given.plugins).map Prod.fst := by
      rw [← hapis]
      rfl
    have hsame : (flattenAll strapi.apis).find?
          (fun id => matchesRoute cacheRoute
            ((flattenRoutes given objects).2 id)) =
        (flattenAll strapi.apis).find? (fun id => matchesRoute cacheRoute
          ((objects id).withGlobalPath
            (apiGlobalPath strapi.apiPrefix (objects id)))) := by
      apply List.find?_congr
      intro other hmem
      rw [flattenRoutes_objects, mountedPath_of_api (hapis ▸ hmem)
        (fun hmounted => hgiven other hmem (mem_pluginIds_of_mounted hmounted)),
        hprefix]
      rfl
    rw [foundAt, htable, List.find?_append, hsame]
    cases (flattenAll strapi.apis).find? (fun id => matchesRoute cacheRoute
        ((objects id).withGlobalPath
          (apiGlobalPath strapi.apiPrefix (objects id)))) with
    | some found => rfl
    | none =>
        rw [Option.none_or]
        constructor
        · intro hfound
          have hmounted := List.mem_of_find?_eq_some hfound
          exact absurd (mem_pluginIds_of_mounted hmounted) (hgiven id hid)
        · intro h
          cases h
  rw [hone { strapi with plugins } rfl rfl hother, hone strapi rfl rfl hapart]

theorem filter_attachmentFor (strapiRoutes : List RouteId)
    (objects : Objects Context) (contentType : Option JsString)
    (cacheRoute : CacheRouteConfig Context) (id : RouteId) :
    (attachmentFor strategy strapiRoutes objects contentType cacheRoute).filter
        (fun attachment => attachment.id = id) =
      if foundAt strapiRoutes objects cacheRoute = some id then
        attachmentAt strategy contentType cacheRoute id
      else none := by
  unfold attachmentFor
  cases foundAt strapiRoutes objects cacheRoute with
  | none => rfl
  | some found =>
      rw [Option.bind_some]
      by_cases hsame : found = id
      · rw [if_pos (congrArg some hsame), hsame]
        cases hmade : attachmentAt strategy contentType cacheRoute id with
        | none => rfl
        | some attachment => simp [(attachmentAt_some hmade).left]
      · rw [if_neg (fun h => hsame (Option.some.inj h)),
          Option.filter_eq_none_iff]
        intro attachment hmade heq
        apply hsame
        rw [← (attachmentAt_some hmade).left, of_decide_eq_true heq]

/--
Installing, removing or reordering plugins does not change what is attached to
the routes of the APIs.
-/
theorem injectMiddlewares_plugins {plugins : List Plugin}
    {afterOther : Objects Context}
    (hapart : forall id, id ∈ flattenAll strapi.apis ->
      id ∉ pluginIds strapi.plugins ∧ id ∉ pluginIds plugins)
    (h : injectMiddlewares strapi strategy objects = Except.ok after)
    (hother : injectMiddlewares { strapi with plugins } strategy objects =
      Except.ok afterOther)
    (hid : id ∈ flattenAll strapi.apis) : afterOther id = after id := by
  have hmine := fun id hid => (hapart id hid).left
  have htheirs := fun id hid => (hapart id hid).right
  have hobject : (flattenRoutes { strapi with plugins } objects).2 id =
      (flattenRoutes strapi objects).2 id := by
    rw [flattenRoutes_objects, flattenRoutes_objects,
      mountedPath_of_api hid
        (fun hmem => hmine id hid (mem_pluginIds_of_mounted hmem)),
      mountedPath_of_api (show id ∈ flattenAll { strapi with plugins }.apis from hid)
        (fun hmem => htheirs id hid (mem_pluginIds_of_mounted hmem))]
  have hadmin : forall given : Strapi, id ∉ pluginIds given.plugins ->
      (adminAttachments (searchedAdmin given strategy)
        (flattenRoutes given objects).2).filter
          (fun attachment => attachment.id = id) = [] := by
    intro given hgiven
    rw [List.filter_eq_nil_iff]
    intro attachment hmem heq
    rcases List.mem_filterMap.mp hmem with ⟨adminRoute, _, hmade⟩
    rcases Option.map_eq_some_iff.mp hmade with ⟨found, hfound, hattachment⟩
    have hsearched := List.mem_of_find?_eq_some hfound
    have hsame : found = id := by
      rw [← of_decide_eq_true heq, ← hattachment]
    apply hgiven
    unfold searchedAdmin at hsearched
    split at hsearched
    · cases hroutes : contentManagerRoutes given with
      | error e =>
          rw [hroutes] at hsearched
          exact absurd hsearched List.not_mem_nil
      | ok routes =>
          rw [hroutes] at hsearched
          exact mem_pluginIds_of_contentManager hroutes (hsame ▸ hsearched)
    · exact absurd hsearched List.not_mem_nil
  have hcontent : (contentTypeAttachments strategy
        (flattenRoutes { strapi with plugins } objects).1
        (flattenRoutes { strapi with plugins } objects).2).filter
          (fun attachment => attachment.id = id) =
      (contentTypeAttachments strategy (flattenRoutes strapi objects).1
        (flattenRoutes strapi objects).2).filter
          (fun attachment => attachment.id = id) := by
    rw [contentTypeAttachments_eq, contentTypeAttachments_eq,
      List.filter_filterMap, List.filter_filterMap]
    congr 1
    funext z
    have hiff := @foundAt_api Context strapi objects id plugins hmine htheirs hid
      z.2
    rw [filter_attachmentFor, filter_attachmentFor, if_congr hiff rfl rfl]
  rw [injectMiddlewares_object h, injectMiddlewares_object hother, hobject]
  congr 1
  unfold entriesFor attachments
  rw [List.filter_append, List.filter_append, hcontent,
    hadmin strapi (hmine id hid), hadmin { strapi with plugins } (htheirs id hid)]

/-!
## A registration

An API, a plugin with a route of the content API and the content manager, with
the purge of the route middlewares.
-/

def newsStrapi : Strapi where
  apis := [RouteContainer.record [RouteContainer.routes [0, 1]]]
  plugins :=
    [{ name := "content-manager".toList
       routes := PluginRoutes.record
        [PluginRouter.object { type := some "admin".toList, routerPrefix := none }
          (some [2])] },
     { name := "users-permissions".toList
       routes := PluginRoutes.record
        [PluginRouter.factory
          (some { type := some "content-api".toList, routerPrefix := none })
            (some [3])] }]
  apiPrefix := "/api".toList

def newsRoute (method : HttpMethod) (path : JsString)
    (config : RouteConfig Unit) : FlattenedRoute Unit where
  method := some method
  path
  globalPath := none
  config

def newsObjects : Objects Unit
  | 0 => newsRoute HttpMethod.GET "/articles".toList RouteConfig.undefined
  | 1 =>
      newsRoute HttpMethod.PUT "/articles/:id".toList
        (RouteConfig.object
          (some [RouteMiddleware.uid "global::log".toList]) false)
  | 2 =>
      newsRoute HttpMethod.POST "/collection-types/:model".toList
        (RouteConfig.object none false)
  | _ =>
      newsRoute HttpMethod.GET "/users".toList
        (RouteConfig.object (some []) true)

def newsKeys : Strategy.CacheKeysConfig :=
  Strategy.CacheKeysConfig.new none

def newsCached (method : HttpMethod) (path : JsString) :
    CacheRouteConfig Unit where
  maxAge := 3600000
  path
  method
  paramNames := []
  keys := newsKeys
  hitpass := Strategy.Hitpass.bool true

def newsContentType (uid : JsString) (routes : List (CacheRouteConfig Unit)) :
    CacheContentTypeConfig Unit where
  singleType := false
  injectDefaultRoutes := true
  maxAge := 3600000
  hitpass := Strategy.Hitpass.bool true
  keys := newsKeys
  plugin := none
  routes
  contentType := some uid
  relatedContentTypeUid := []

def newsStrategy (enableDocumentServiceMiddleware : Bool) :
    CachePluginStrategy Unit where
  debug := false
  enableEtag := false
  enableXCacheHeaders := false
  enableAdminCTBMiddleware := true
  enableDocumentServiceMiddleware
  enableContentApiPurge := false
  resetOnStartup := false
  clearRelatedCache := true
  maxAge := 3600000
  keysPrefix := []
  contentTypes :=
    [newsContentType "api::article.article".toList
      [newsCached HttpMethod.GET "/api/articles".toList,
        newsCached HttpMethod.PUT "/api/articles/:id".toList],
     newsContentType "plugin::users-permissions.user".toList
      [newsCached HttpMethod.GET "/api/users".toList]]
  keys := newsKeys
  cacheControl := Strategy.CacheControlConfig.new none

def newsAfter : Objects Unit :=
  attached (attachments newsStrapi (newsStrategy false) newsObjects)
    (flattenRoutes newsStrapi newsObjects).2

theorem newsObjects_config (id : RouteId) :
    (newsObjects id).config ≠ RouteConfig.null := by
  unfold newsObjects
  split <;> (intro h; cases h)

theorem news_writable (given : List (Attachment Unit)) :
    Writable given (flattenRoutes newsStrapi newsObjects).2 := by
  intro attachment _
  rw [flattenRoutes_objects]
  exact newsObjects_config attachment.id

theorem news_registration :
    injectMiddlewares newsStrapi (newsStrategy false) newsObjects =
      Except.ok newsAfter :=
  injectMiddlewares_ok.mpr ⟨fun _ => rfl, news_writable _, rfl⟩

theorem injectMiddlewares_registered_news :
    injectMiddlewares newsStrapi (newsStrategy false) newsObjects =
        Except.ok newsAfter ∧
      Registered newsStrapi (newsStrategy false) newsObjects 1 (newsAfter 1) ∧
      (purgeFor newsStrapi (newsStrategy false) newsObjects 1).isSome = true :=
  ⟨news_registration, injectMiddlewares_registered news_registration 1, rfl⟩

theorem injectMiddlewares_again_news :
    injectMiddlewares newsStrapi (newsStrategy false) newsAfter =
      Except.ok newsAfter :=
  injectMiddlewares_again news_registration

def newsAlone : Strapi :=
  { newsStrapi with plugins := newsStrapi.plugins.take 1 }

def newsAloneAfter : Objects Unit :=
  attached (attachments newsAlone (newsStrategy false) newsObjects)
    (flattenRoutes newsAlone newsObjects).2

theorem newsAlone_registration :
    injectMiddlewares newsAlone (newsStrategy false) newsObjects =
      Except.ok newsAloneAfter := by
  apply injectMiddlewares_ok.mpr
  refine ⟨fun _ => rfl, ?_, rfl⟩
  intro attachment hmem hnull
  apply news_writable _ attachment hmem
  rw [flattenRoutes_objects] at hnull ⊢
  exact hnull

theorem injectMiddlewares_plugins_news :
    newsAloneAfter 0 = newsAfter 0 ∧ newsAloneAfter 1 = newsAfter 1 := by
  have hapart : forall id, id ∈ flattenAll newsStrapi.apis ->
      id ∉ pluginIds newsStrapi.plugins ∧ id ∉ pluginIds newsAlone.plugins := by
    decide
  exact ⟨injectMiddlewares_plugins hapart news_registration
      newsAlone_registration (by decide),
    injectMiddlewares_plugins hapart news_registration newsAlone_registration
      (by decide)⟩

end Boot
end RestCache
