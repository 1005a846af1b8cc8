import RestCache.Boot.InjectMiddlewares

/-!
# What the registration attaches

The loops of the registration come down to one list of attachments, which is told
from the objects as they are flattened.
-/

namespace RestCache
namespace Boot

open Foundation
open Foundation.KeyedUpdate
open Strategy (HttpMethod CacheRouteConfig CacheContentTypeConfig
  CachePluginStrategy)

variable {Context : Type _}

def foundAt (strapiRoutes : List RouteId) (objects : Objects Context)
    (cacheRoute : CacheRouteConfig Context) : Option RouteId :=
  strapiRoutes.find? (fun id => matchesRoute cacheRoute (objects id))

def attachmentAt (strategy : CachePluginStrategy Context)
    (contentType : Option JsString) (cacheRoute : CacheRouteConfig Context)
    (id : RouteId) : Option (Attachment Context) :=
  if cacheRoute.method = HttpMethod.GET then
    some ⟨id, recvUid, MiddlewareConfig.cacheRouteConfig cacheRoute⟩
  else if strategy.enableDocumentServiceMiddleware then none
  else some ⟨id, purgeUid, MiddlewareConfig.contentType contentType⟩

def attachmentFor (strategy : CachePluginStrategy Context)
    (strapiRoutes : List RouteId) (objects : Objects Context)
    (contentType : Option JsString) (cacheRoute : CacheRouteConfig Context) :
    Option (Attachment Context) :=
  (foundAt strapiRoutes objects cacheRoute).bind
    (attachmentAt strategy contentType cacheRoute)

theorem attachmentAt_some {strategy : CachePluginStrategy Context}
    {contentType : Option JsString} {cacheRoute : CacheRouteConfig Context}
    {id : RouteId} {attachment : Attachment Context}
    (h : attachmentAt strategy contentType cacheRoute id = some attachment) :
    attachment.id = id ∧ attachment.name ∈ [recvUid, purgeUid] := by
  unfold attachmentAt at h
  split at h
  · rw [← Option.some.inj h]
    exact ⟨rfl, List.mem_cons_self⟩
  · split at h
    · cases h
    · rw [← Option.some.inj h]
      exact ⟨rfl, List.mem_cons_of_mem _ List.mem_cons_self⟩

def contentTypeAttachments (strategy : CachePluginStrategy Context)
    (strapiRoutes : List RouteId) (objects : Objects Context) :
    List (Attachment Context) :=
  strategy.contentTypes.flatMap fun cacheConf =>
    cacheConf.routes.filterMap
      (attachmentFor strategy strapiRoutes objects cacheConf.contentType)

def adminFoundAt (contentManager : List RouteId) (objects : Objects Context)
    (adminRoute : HttpMethod × JsString) : Option RouteId :=
  contentManager.find? (fun id =>
    (objects id).method = some adminRoute.1 && (objects id).path = adminRoute.2)

def adminAttachments (contentManager : List RouteId)
    (objects : Objects Context) : List (Attachment Context) :=
  adminRoutes.filterMap fun adminRoute =>
    (adminFoundAt contentManager objects adminRoute).map fun id =>
      ⟨id, purgeAdminUid, MiddlewareConfig.empty⟩

def searchedAdmin (strapi : Strapi) (strategy : CachePluginStrategy Context) :
    List RouteId :=
  if injectsAdmin strategy then
    (contentManagerRoutes strapi).toOption.getD []
  else
    []

def attachments (strapi : Strapi) (strategy : CachePluginStrategy Context)
    (objects : Objects Context) : List (Attachment Context) :=
  let flattened := flattenRoutes strapi objects
  contentTypeAttachments strategy flattened.1 flattened.2 ++
    adminAttachments (searchedAdmin strapi strategy) flattened.2

/-!
## The loops as one list
-/

/-- The objects that the lookups cannot tell apart. -/
def SameTable (objects other : Objects Context) : Prop :=
  forall id, (other id).method = (objects id).method ∧
    (other id).path = (objects id).path ∧
    (other id).globalPath = (objects id).globalPath

theorem sameTable_refl (objects : Objects Context) : SameTable objects objects :=
  fun _ => ⟨rfl, rfl, rfl⟩

theorem sameTable_attached {objects other : Objects Context}
    (h : SameTable objects other) (given : List (Attachment Context)) :
    SameTable objects (attached given other) := by
  intro id
  rcases h id with ⟨hmethod, hpath, hglobal⟩
  exact ⟨attach_method.trans hmethod, attach_path.trans hpath,
    attach_globalPath.trans hglobal⟩

theorem SameTable.foundAt {objects other : Objects Context}
    (h : SameTable objects other) (strapiRoutes : List RouteId)
    (cacheRoute : CacheRouteConfig Context) :
    foundAt strapiRoutes other cacheRoute =
      foundAt strapiRoutes objects cacheRoute := by
  have hmatch : (fun id => matchesRoute cacheRoute (other id)) =
      fun id => matchesRoute cacheRoute (objects id) := by
    funext id
    rw [matchesRoute, matchesRoute, (h id).left, (h id).right.right]
  rw [Boot.foundAt, Boot.foundAt, hmatch]

theorem SameTable.adminFoundAt {objects other : Objects Context}
    (h : SameTable objects other) (contentManager : List RouteId)
    (adminRoute : HttpMethod × JsString) :
    adminFoundAt contentManager other adminRoute =
      adminFoundAt contentManager objects adminRoute := by
  unfold Boot.adminFoundAt
  congr 1
  funext id
  rw [(h id).left, (h id).right.left]

theorem SameTable.contentTypeAttachments {objects other : Objects Context}
    (h : SameTable objects other) (strategy : CachePluginStrategy Context)
    (strapiRoutes : List RouteId) :
    contentTypeAttachments strategy strapiRoutes other =
      contentTypeAttachments strategy strapiRoutes objects := by
  have hfor : attachmentFor strategy strapiRoutes other =
      attachmentFor strategy strapiRoutes objects := by
    funext contentType cacheRoute
    rw [attachmentFor, attachmentFor, h.foundAt]
  rw [Boot.contentTypeAttachments, Boot.contentTypeAttachments, hfor]

theorem SameTable.adminAttachments {objects other : Objects Context}
    (h : SameTable objects other) (contentManager : List RouteId) :
    adminAttachments contentManager other =
      adminAttachments contentManager objects := by
  unfold Boot.adminAttachments
  congr 1
  funext adminRoute
  rw [h.adminFoundAt]

theorem attachAll_append (given more : List (Attachment Context))
    (objects : Objects Context) :
    attachAll (given ++ more) objects =
      (attachAll given objects).bind (attachAll more) :=
  List.foldlM_append

theorem attachAll_one (given : Attachment Context) (objects : Objects Context) :
    attachAll [given] objects =
      injectAt objects given.id given.name given.config := by
  rw [attachAll, List.foldlM_cons]
  cases injectAt objects given.id given.name given.config <;> rfl

theorem foldlM_eq_attachAll {source : Type _}
    {visit : Objects Context -> source -> Except TypeError (Objects Context)}
    {given : source -> List (Attachment Context)} {objects : Objects Context}
    (h : forall x other, SameTable objects other ->
      visit other x = attachAll (given x) other)
    (l : List source) {other : Objects Context}
    (hother : SameTable objects other) :
    l.foldlM visit other = attachAll (l.flatMap given) other := by
  induction l generalizing other with
  | nil => rfl
  | cons x rest ih =>
      rw [List.foldlM_cons, h x other hother, List.flatMap_cons,
        attachAll_append]
      cases hgiven : attachAll (given x) other with
      | error e => rfl
      | ok next =>
          rw [(attachAll_ok.mp hgiven).right]
          exact ih (sameTable_attached hother (given x))

theorem flatMap_toList {source target : Type _} (f : source -> Option target)
    (l : List source) :
    l.flatMap (fun x => (f x).toList) = l.filterMap f := by
  induction l with
  | nil => rfl
  | cons x rest ih =>
      rw [List.flatMap_cons, ih, List.filterMap_cons]
      cases f x <;> rfl

variable {strapi : Strapi} {strategy : CachePluginStrategy Context}
  {strapiRoutes : List RouteId} {objects other after : Objects Context}

theorem method_of_matchesRoute {cacheRoute : CacheRouteConfig Context}
    {route : FlattenedRoute Context}
    (h : matchesRoute cacheRoute route = true) :
    route.method = some cacheRoute.method := by
  unfold matchesRoute at h
  rw [Bool.and_eq_true] at h
  exact of_decide_eq_true h.left

theorem foundAt_some {cacheRoute : CacheRouteConfig Context} {id : RouteId}
    (h : foundAt strapiRoutes objects cacheRoute = some id) :
    id ∈ strapiRoutes ∧ matchesRoute cacheRoute (objects id) = true := by
  have hfound := @List.find?_some _
    (fun id => matchesRoute cacheRoute (objects id)) _ _ h
  exact ⟨List.mem_of_find?_eq_some h, hfound⟩

theorem injectRoute_eq (contentType : Option JsString)
    (cacheRoute : CacheRouteConfig Context) (hother : SameTable objects other) :
    injectRoute strategy strapiRoutes contentType other cacheRoute =
      attachAll (attachmentFor strategy strapiRoutes objects contentType
        cacheRoute).toList other := by
  unfold attachmentFor
  rw [← hother.foundAt]
  cases hfind : foundAt strapiRoutes other cacheRoute with
  | none =>
      unfold foundAt at hfind
      rw [injectRoute, hfind]
      rfl
  | some id =>
      have hmethod := method_of_matchesRoute (foundAt_some hfind).right
      unfold foundAt at hfind
      rw [injectRoute, hfind, Option.bind_some]
      show injectFound strategy contentType cacheRoute other id = _
      rw [injectFound, hmethod, attachmentAt]
      cases cacheRoute.method with
      | GET =>
          exact (attachAll_one ⟨id, recvUid,
            MiddlewareConfig.cacheRouteConfig cacheRoute⟩ other).symm
      | _ =>
          cases strategy.enableDocumentServiceMiddleware with
          | true => rfl
          | false =>
              exact (attachAll_one ⟨id, purgeUid,
                MiddlewareConfig.contentType contentType⟩ other).symm

theorem injectContentType_eq (cacheConf : CacheContentTypeConfig Context)
    (hother : SameTable objects other) :
    injectContentType strategy strapiRoutes other cacheConf =
      attachAll (cacheConf.routes.filterMap
        (attachmentFor strategy strapiRoutes objects cacheConf.contentType))
          other := by
  rw [injectContentType, ← flatMap_toList]
  exact foldlM_eq_attachAll
    (fun cacheRoute _ h => injectRoute_eq cacheConf.contentType cacheRoute h)
    cacheConf.routes hother

theorem injectAdmin_eq (contentManager : List RouteId)
    (adminRoute : HttpMethod × JsString) (hother : SameTable objects other) :
    injectAdmin contentManager other adminRoute =
      attachAll ((adminFoundAt contentManager objects adminRoute).map
        fun id => (⟨id, purgeAdminUid, MiddlewareConfig.empty⟩ :
          Attachment Context)).toList other := by
  rw [← hother.adminFoundAt]
  cases hfind : adminFoundAt contentManager other adminRoute with
  | none =>
      unfold adminFoundAt at hfind
      rw [injectAdmin, hfind]
      rfl
  | some id =>
      unfold adminFoundAt at hfind
      rw [injectAdmin, hfind]
      exact (attachAll_one ⟨id, purgeAdminUid, MiddlewareConfig.empty⟩
        other).symm

theorem injectMiddlewares_ok :
    injectMiddlewares strapi strategy objects = Except.ok after <->
      (injectsAdmin strategy = true ->
        (contentManagerRoutes strapi).isOk = true) ∧
      Writable (attachments strapi strategy objects)
        (flattenRoutes strapi objects).2 ∧
      after = attached (attachments strapi strategy objects)
        (flattenRoutes strapi objects).2 := by
  have hsame := sameTable_refl (flattenRoutes strapi objects).2
  have hcontent : strategy.contentTypes.foldlM
      (injectContentType strategy (flattenRoutes strapi objects).1)
        (flattenRoutes strapi objects).2 =
      attachAll (contentTypeAttachments strategy (flattenRoutes strapi objects).1
        (flattenRoutes strapi objects).2) (flattenRoutes strapi objects).2 :=
    foldlM_eq_attachAll (fun cacheConf _ h => injectContentType_eq cacheConf h)
      strategy.contentTypes hsame
  have hadmin : forall (contentManager : List RouteId) (other : Objects Context),
      SameTable (flattenRoutes strapi objects).2 other ->
      adminRoutes.foldlM (injectAdmin contentManager) other =
        attachAll (adminAttachments contentManager
          (flattenRoutes strapi objects).2) other := by
    intro contentManager other hother
    rw [adminAttachments, ← flatMap_toList]
    exact foldlM_eq_attachAll
      (fun adminRoute _ h => injectAdmin_eq contentManager adminRoute h)
      adminRoutes hother
  rw [← attachAll_ok]
  show Except.bind (strategy.contentTypes.foldlM _ _) _ = _ <-> _
  rw [hcontent, attachments, attachAll_append, searchedAdmin]
  cases hfirst : attachAll (contentTypeAttachments strategy
      (flattenRoutes strapi objects).1 (flattenRoutes strapi objects).2)
      (flattenRoutes strapi objects).2 with
  | error e =>
      show Except.error e = _ <-> _ ∧ Except.error e = _
      simp
  | ok next =>
      have hnext : SameTable (flattenRoutes strapi objects).2 next := by
        rw [(attachAll_ok.mp hfirst).right]
        exact sameTable_attached hsame _
      show (if injectsAdmin strategy then injectAdminRoutes strapi next
        else Except.ok next) = _ <-> _ ∧ attachAll _ next = _
      cases injectsAdmin strategy with
      | false =>
          have hnone : adminAttachments [] (flattenRoutes strapi objects).2 =
              [] := rfl
          show Except.ok next = _ <-> _ ∧ attachAll (adminAttachments [] _) _ = _
          rw [hnone]
          simp [attachAll, pure, Except.pure]
      | true =>
          show injectAdminRoutes strapi next = _ <-> _
          unfold injectAdminRoutes
          cases contentManagerRoutes strapi with
          | error e =>
              show Except.error e = _ <-> (_ -> false = true) ∧ _
              simp
          | ok contentManager =>
              show adminRoutes.foldlM (injectAdmin contentManager) next = _ <->
                (_ -> true = true) ∧ attachAll (adminAttachments contentManager
                  (flattenRoutes strapi objects).2) next = _
              rw [hadmin contentManager next hnext]
              simp

end Boot
end RestCache
