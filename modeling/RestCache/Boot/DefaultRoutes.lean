import RestCache.Boot.RouteTable
import RestCache.Config.PurgeReach
import RestCache.Strategy.InheritedHitpass

/-!
# Content types listed by uid

The usual configuration names content types by their uids and lists no routes.
Then every default route of their APIs is cached, and what is stored through it
the purge of the content type reaches.
-/

namespace RestCache
namespace Boot

open Foundation
open Foundation.KeyedUpdate
open Router (RoutePath Segment render isStatic)
open Strategy (HttpMethod CacheRouteConfig CacheContentTypeConfig
  CachePluginStrategy CachePluginStrategyInput ContentTypeInput Resolved
  resolveUserStrategy printed)

variable {Context : Type _}

/-!
## Default routes
-/

def defaultTails (contentType : Strategy.ContentType) : List RoutePath :=
  if contentType.kind = Strategy.Kind.singleType then
    [[Segment.text contentType.singularName]]
  else
    [[Segment.text contentType.pluralName],
      [Segment.text contentType.pluralName,
        Segment.param [] "id".toList none Config.Modifier.none]]

/-- A default route of the content type, which its API registered. -/
def IsDefault (view : Strategy.Strapi) (uid : JsString)
    (cacheRoute : CacheRouteConfig Context) : Prop :=
  exists contentType tail routers given,
    view.contentType uid = some contentType ∧
      tail ∈ defaultTails contentType ∧
      view.apis (printed (Strategy.getApiNameFromUid uid)) = some routers ∧
      given ∈ routers.flatten ∧ given.method = some cacheRoute.method ∧
      given.path = render tail ∧
      cacheRoute.path = view.apiPrefix ++ given.path ∧
      cacheRoute.paramNames = Strategy.routeParams given.path

structure PlainNames (view : Strategy.Strapi) : Prop where
  apiPrefix : exists segments : List JsString,
    view.apiPrefix = render (segments.map Segment.text) ∧
      forall segment, segment ∈ segments -> segment.all isStatic = true
  names : forall uid contentType, view.contentType uid = some contentType ->
    contentType.singularName.all isStatic = true ∧
      contentType.pluralName.all isStatic = true

theorem render_collection (name : JsString) :
    render [Segment.text name] = '/' :: name :=
  List.append_nil _

theorem render_entry (name : JsString) :
    render [Segment.text name,
      Segment.param [] "id".toList none Config.Modifier.none] =
        '/' :: name ++ "/:id".toList := by
  show ('/' :: name) ++ ("/:id".toList ++ []) = _
  rw [List.append_nil]

section Injected

variable {view : Strategy.Strapi}
  {cacheConfig : Strategy.DraftContentTypeConfig Context}
  {cacheRoute : CacheRouteConfig Context}

theorem injectedIf_eq {methods : List HttpMethod} {path : JsString}
    {given : Strategy.ApiRoute}
    (h : cacheRoute ∈ Strategy.injectedIf view cacheConfig methods path given) :
    given.path = path ∧ given.method = some cacheRoute.method ∧
      cacheRoute.path = view.apiPrefix ++ given.path ∧
      cacheRoute.paramNames = Strategy.routeParams given.path := by
  rw [Strategy.injectedIf] at h
  cases hmethod : given.method with
  | none =>
      rw [hmethod] at h
      exact absurd h List.not_mem_nil
  | some method =>
      rw [hmethod] at h
      dsimp only at h
      split at h
      · rename_i hboth
        rw [List.mem_singleton.mp h]
        exact ⟨hboth.right, rfl, rfl, rfl⟩
      · exact absurd h List.not_mem_nil

theorem injectedFor_eq {contentType : Strategy.ContentType}
    {given : Strategy.ApiRoute}
    (h : cacheRoute ∈
      Strategy.injectedFor view cacheConfig contentType given) :
    exists tail, tail ∈ defaultTails contentType ∧ given.path = render tail ∧
      given.method = some cacheRoute.method ∧
      cacheRoute.path = view.apiPrefix ++ given.path ∧
      cacheRoute.paramNames = Strategy.routeParams given.path := by
  unfold Strategy.injectedFor at h
  unfold defaultTails
  split at h
  · rename_i hsingle
    rcases injectedIf_eq h with ⟨hpath, hrest⟩
    refine ⟨_, ?_, hpath.trans (render_collection _).symm, hrest⟩
    rw [if_pos hsingle]
    exact List.mem_singleton_self _
  · rename_i hsingle
    rw [if_neg hsingle]
    rcases List.mem_append.mp h with h | h
    · rcases injectedIf_eq h with ⟨hpath, hrest⟩
      exact ⟨_, List.mem_cons_self, hpath.trans (render_collection _).symm, hrest⟩
    · rcases injectedIf_eq h with ⟨hpath, hrest⟩
      exact ⟨_, List.mem_cons_of_mem _ List.mem_cons_self,
        hpath.trans (render_entry _).symm, hrest⟩

theorem isDefault_of_uid {userOptions : CachePluginStrategyInput Context}
    {uid : JsString} {cacheConf : CacheContentTypeConfig Context}
    (h : Strategy.BecomesContentType view userOptions
      (ContentTypeInput.uid uid) cacheConf) :
    cacheConf.contentType = some uid ∧
      forall cacheRoute, cacheRoute ∈ cacheConf.routes ->
        IsDefault view uid cacheRoute := by
  rcases h with ⟨draft, complete, hdraft, hcomplete, rfl⟩
  rcases Except.ok.inj hdraft with rfl
  rw [Strategy.completed] at hcomplete
  split at hcomplete
  · cases hcomplete
  · rename_i contentType hcontentType
    dsimp only at hcomplete
    split at hcomplete
    · rcases Except.ok.inj hcomplete with rfl
      exact ⟨rfl, fun _ hroute => absurd hroute List.not_mem_nil⟩
    · split at hcomplete
      · rcases Except.ok.inj hcomplete with rfl
        exact ⟨rfl, fun _ hroute => absurd hroute List.not_mem_nil⟩
      · split at hcomplete
        · cases hcomplete
        · rename_i found hfound
          split at hcomplete
          · cases hcomplete
          · rename_i routers hrouters
            rcases Except.ok.inj hcomplete with rfl
            have huid : some uid = some found := hfound
            rcases Option.some.inj huid with rfl
            refine ⟨rfl, ?_⟩
            intro cacheRoute hroute
            have hinjected : cacheRoute ∈ [] ++ routers.flatten.flatMap _ :=
              hroute
            rw [List.nil_append] at hinjected
            rcases List.mem_flatMap.mp hinjected with ⟨given, hgiven, hfor⟩
            rcases injectedFor_eq hfor with ⟨tail, htail, hpath, hrest⟩
            exact ⟨contentType, tail, routers, given, hcontentType, htail,
              hrouters, hgiven, hrest.left, hpath, hrest.right⟩

end Injected

/-!
## Their paths
-/

theorem render_append (route more : RoutePath) :
    render (route ++ more) = render route ++ render more :=
  List.flatMap_append

theorem static_ne_colon {text : JsString} (h : text.all isStatic = true) :
    ':' ∉ text := by
  intro hmem
  exact absurd (List.all_eq_true.mp h ':' hmem) (by decide)

theorem routeParams_entry {text : JsString} (h : text.all isStatic = true) :
    Strategy.routeParams (text ++ "/:id".toList) ≠ [] := by
  induction text with
  | nil => decide
  | cons c rest ih =>
      rw [List.all_cons, Bool.and_eq_true] at h
      have hslash : c ≠ '/' := by
        intro hc
        rw [hc] at h
        exact absurd h.left (by decide)
      have hskip : Strategy.routeParams (c :: rest ++ "/:id".toList) =
          Strategy.routeParams (rest ++ "/:id".toList) := by
        rw [List.cons_append, Strategy.routeParams]
        intro other hc
        exact absurd hc hslash
      rw [hskip]
      exact ih h.right

theorem routeParams_collection {name : JsString}
    (h : name.all isStatic = true) :
    Strategy.routeParams ('/' :: name ++ "/:id".toList) ≠ [] := by
  have hskip : Strategy.routeParams ('/' :: name ++ "/:id".toList) =
      Strategy.routeParams (name ++ "/:id".toList) := by
    rw [List.cons_append, Strategy.routeParams]
    intro other _ hrest
    cases name with
    | nil => exact absurd hrest (by simp)
    | cons c rest =>
        rw [List.cons_append, List.cons.injEq] at hrest
        apply static_ne_colon h
        rw [hrest.left]
        exact List.mem_cons_self
  rw [hskip]
  exact routeParams_entry h

theorem readable_text {segments : List JsString}
    (h : forall segment, segment ∈ segments -> segment.all isStatic = true) :
    Config.Readable (segments.map Segment.text) := by
  intro segment hsegment
  rcases List.mem_map.mp hsegment with ⟨text, htext, rfl⟩
  exact ⟨h text htext, rfl⟩

theorem defaultTails_cases {contentType : Strategy.ContentType}
    (hnames : contentType.singularName.all isStatic = true ∧
      contentType.pluralName.all isStatic = true)
    {tail : RoutePath} (h : tail ∈ defaultTails contentType) :
    Config.Readable tail ∧ (render tail).getLast? ≠ some '+' ∧
      (':' ∈ render tail -> Strategy.routeParams (render tail) ≠ []) := by
  have hone : forall name : JsString, name.all isStatic = true ->
      Config.Readable [Segment.text name] ∧
        (render [Segment.text name]).getLast? ≠ some '+' ∧
        (':' ∈ render [Segment.text name] ->
          Strategy.routeParams (render [Segment.text name]) ≠ []) := by
    intro name hname
    have hlast : '+' ∉ '/' :: name := by
      intro hmem
      rcases List.mem_cons.mp hmem with hslash | hmem
      · exact absurd hslash (by decide)
      · exact absurd (List.all_eq_true.mp hname '+' hmem) (by decide)
    refine ⟨?_, ?_, ?_⟩
    · intro segment hsegment
      rw [List.mem_singleton.mp hsegment]
      exact ⟨hname, rfl⟩
    · rw [render_collection]
      exact fun hplus => hlast (List.mem_of_getLast? hplus)
    · intro hcolon
      rw [render_collection] at hcolon
      rcases List.mem_cons.mp hcolon with hslash | hmem
      · exact absurd hslash (by decide)
      · exact absurd hmem (static_ne_colon hname)
  unfold defaultTails at h
  split at h
  · rw [List.mem_singleton.mp h]
    exact hone _ hnames.left
  · rcases List.mem_cons.mp h with hcollection | hentry
    · rw [hcollection]
      exact hone _ hnames.right
    · rw [List.mem_singleton.mp hentry]
      refine ⟨?_, ?_, ?_⟩
      · intro segment hsegment
        rcases List.mem_cons.mp hsegment with hfirst | hsecond
        · rw [hfirst]
          exact ⟨hnames.right, rfl⟩
        · rw [List.mem_singleton.mp hsecond]
          exact ⟨by decide, rfl⟩
      · rw [render_entry, List.getLast?_append]
        exact fun h => absurd (Option.some.inj h) (by decide)
      · intro _
        rw [render_entry]
        exact routeParams_collection hnames.right

theorem render_ne_nil {contentType : Strategy.ContentType} {tail : RoutePath}
    (h : tail ∈ defaultTails contentType) : render tail ≠ [] := by
  unfold defaultTails at h
  split at h
  · rw [List.mem_singleton.mp h, render_collection]
    exact List.cons_ne_nil _ _
  · rcases List.mem_cons.mp h with hcollection | hentry
    · rw [hcollection, render_collection]
      exact List.cons_ne_nil _ _
    · rw [List.mem_singleton.mp hentry, render_entry]
      exact List.cons_ne_nil _ _

theorem isDefault_spelled {view : Strategy.Strapi} {uid : JsString}
    {cacheRoute : CacheRouteConfig Context} (hplain : PlainNames view)
    (h : IsDefault view uid cacheRoute) :
    cacheRoute.path ≠ [] ∧ cacheRoute.path.getLast? ≠ some '+' ∧
      exists route, Config.ReadAs (routeSeen cacheRoute) route := by
  rcases h with ⟨contentType, tail, routers, given, hcontentType, htail, _, _, _,
    hgiven, hpath, hnames⟩
  rcases hplain.apiPrefix with ⟨segments, hprefix, hstatic⟩
  rcases defaultTails_cases (hplain.names uid contentType hcontentType) htail with
    ⟨hreadable, hlast, hparams⟩
  have hrender : cacheRoute.path =
      render (segments.map Segment.text ++ tail) := by
    rw [hpath, hgiven, hprefix, render_append]
  refine ⟨?_, ?_, ?_⟩
  · rw [hpath, hgiven]
    intro hempty
    exact render_ne_nil htail (List.append_eq_nil_iff.mp hempty).right
  · rw [hpath, hgiven, List.getLast?_append]
    intro hplus
    cases hend : (render tail).getLast? with
    | none => exact render_ne_nil htail (List.getLast?_eq_none_iff.mp hend)
    | some c =>
        rw [hend] at hplus hlast
        exact hlast hplus
  · refine ⟨segments.map Segment.text ++ tail,
      Config.readAs_of_spelled ⟨hrender, ?_, ?_⟩⟩
    · intro hcolon
      show cacheRoute.paramNames ≠ []
      rw [hnames, hgiven]
      apply hparams
      have hmem : ':' ∈ cacheRoute.path := hcolon
      rw [hrender, render_append, List.mem_append] at hmem
      rcases hmem with hbefore | hmem
      · rcases List.mem_flatMap.mp hbefore with ⟨segment, hsegment, hin⟩
        rcases List.mem_map.mp hsegment with ⟨text, htext, rfl⟩
        rcases List.mem_cons.mp hin with hslash | hin
        · exact absurd hslash (by decide)
        · exact absurd hin (static_ne_colon (hstatic text htext))
      · exact hmem
    · intro segment hsegment
      rcases List.mem_append.mp hsegment with hbefore | htail
      · exact readable_text hstatic segment hbefore
      · exact hreadable segment htail

/-!
## Registration
-/

section Registration

variable {view : Strategy.Strapi}
  {userOptions : CachePluginStrategyInput Context} {uids : List JsString}
  {resolved : Resolved Context} {strapi : Strapi}
  {objects after : Objects Context} {id : RouteId}
  {cacheConf : CacheContentTypeConfig Context}
  {cacheRoute : CacheRouteConfig Context}

def NoRecv (objects : Objects Context) : Prop :=
  forall id, first nameOf (some recvUid) (objects id).middlewares = none

/-- No registered path ends in a `+`. -/
def NoPlus (strapi : Strapi) (objects : Objects Context) : Prop :=
  forall id globalPath,
    ((flattenRoutes strapi objects).2 id).globalPath = some globalPath ->
      globalPath.getLast? ≠ some '+'

/-- The routes of the APIs are in the table, under the prefix. -/
def Mounts (view : Strategy.Strapi) (strapi : Strapi)
    (objects : Objects Context) : Prop :=
  forall apiName routers given, view.apis apiName = some routers ->
    given ∈ routers.flatten -> exists id, id ∈ tableOf strapi ∧
      (objects id).method = given.method ∧
      ((flattenRoutes strapi objects).2 id).globalPath =
        some (view.apiPrefix ++ given.path)

theorem normalizeRoutePath_eq {path : JsString}
    (h : path.getLast? ≠ some '+') :
    Config.normalizeRoutePath (some path) = path :=
  if_neg h

theorem assigned_of_recv {strategy : CachePluginStrategy Context}
    (h : injectMiddlewares strapi strategy objects = Except.ok after)
    (hnone : NoRecv objects)
    (hrecv : RouteMiddleware.object recvUid
      (MiddlewareConfig.cacheRouteConfig cacheRoute) ∈ (after id).middlewares) :
    exists contentType,
      (contentType, cacheRoute) ∈ assigned strapi strategy objects id ∧
        cacheRoute.method = HttpMethod.GET := by
  rw [injectMiddlewares_object h, attach_middlewares, flattened_middlewares]
    at hrecv
  rcases mem_upsertAll hrecv with hentry | hold
  · rcases List.mem_map.mp hentry with ⟨attachment, hmem, heq⟩
    rcases List.mem_filter.mp hmem with ⟨hmem, hid⟩
    have hattachment : attachment.name = recvUid ∧ attachment.config =
        MiddlewareConfig.cacheRouteConfig cacheRoute :=
      RouteMiddleware.object.inj heq
    rcases List.mem_append.mp hmem with hcontent | hadmin
    · rw [contentTypeAttachments_eq] at hcontent
      rcases List.mem_filterMap.mp hcontent with ⟨z, hz, hmade⟩
      rw [attachmentFor, Option.bind_eq_some_iff] at hmade
      rcases hmade with ⟨found, hfound, hmade⟩
      have hfoundAt := (attachmentAt_some hmade).left
      rw [of_decide_eq_true hid] at hfoundAt
      unfold attachmentAt at hmade
      split at hmade
      · rename_i hget
        rw [← Option.some.inj hmade] at hattachment
        have hroute : z.2 = cacheRoute :=
          MiddlewareConfig.cacheRouteConfig.inj hattachment.right
        rw [← hroute]
        refine ⟨z.1, List.mem_filter.mpr ⟨hz, ?_⟩, hget⟩
        rw [hfoundAt]
        exact decide_eq_true hfound
      · split at hmade
        · cases hmade
        · rw [← Option.some.inj hmade] at hattachment
          exact absurd hattachment.left.symm recvUid_ne_purgeUid
    · rw [adminAttachments_name hadmin] at hattachment
      exact absurd hattachment.left.symm recvUid_ne_purgeAdminUid
  · have hfirst := List.find?_eq_none.mp (hnone id) _ hold
    exact absurd (decide_eq_true rfl) hfirst

theorem get_of_uids
    (huids : userOptions.contentTypes.getD [] = uids.map ContentTypeInput.uid)
    (hresolved : resolveUserStrategy view userOptions = Except.ok resolved)
    (hconf : cacheConf ∈ resolved.strategy.contentTypes) :
    (exists uid, Strategy.BecomesContentType view userOptions
      (ContentTypeInput.uid uid) cacheConf) ∧
    (strategySeen resolved.strategy).get (printed cacheConf.contentType) =
      some (contentTypeSeen cacheConf) := by
  have hall := Strategy.resolved_contentTypes hresolved
  rw [huids] at hall
  have hbecomes : forall other, other ∈ resolved.strategy.contentTypes ->
      exists uid, Strategy.BecomesContentType view userOptions
        (ContentTypeInput.uid uid) other := by
    intro other hother
    rcases exists_related_right hall hother with ⟨entry, hentry, hrelated⟩
    rcases List.mem_map.mp hentry with ⟨uid, _, rfl⟩
    exact ⟨uid, hrelated⟩
  refine ⟨hbecomes cacheConf hconf, ?_⟩
  rcases hbecomes cacheConf hconf with ⟨uid, hmine⟩
  have hself := (isDefault_of_uid hmine).left
  unfold Config.CachePluginStrategy.get
  cases hfind : (strategySeen resolved.strategy).contentTypes.find?
      (fun other => other.contentType = printed cacheConf.contentType) with
  | none =>
      have hnone := List.find?_eq_none.mp hfind (contentTypeSeen cacheConf)
        (List.mem_map_of_mem hconf)
      exact absurd (decide_eq_true rfl) hnone
  | some seen =>
      have hsame := of_decide_eq_true (@List.find?_some _
        (fun other : Config.CacheContentTypeConfig =>
          other.contentType = printed cacheConf.contentType) _ _ hfind)
      rcases List.mem_map.mp (List.mem_of_find?_eq_some hfind) with
        ⟨other, hother, rfl⟩
      rcases hbecomes other hother with ⟨otherUid, htheirs⟩
      have huid : otherUid = uid := by
        have hprinted : printed other.contentType =
          printed cacheConf.contentType := hsame
        rw [hself, (isDefault_of_uid htheirs).left] at hprinted
        exact hprinted
      subst huid
      rcases hmine with ⟨draft, complete, hdraft, hcomplete, rfl⟩
      rcases htheirs with ⟨draft', complete', hdraft', hcomplete', rfl⟩
      rw [hdraft, Except.ok.injEq] at hdraft'
      subst hdraft'
      rw [hcomplete, Except.ok.injEq] at hcomplete'
      rw [hcomplete']

theorem globalPath_of_found {strategy : CachePluginStrategy Context}
    (h : injectMiddlewares strapi strategy objects = Except.ok after)
    (hplus : NoPlus strapi objects) (hpath : cacheRoute.path ≠ [])
    (hlast : cacheRoute.path.getLast? ≠ some '+')
    (hfound : foundAt (flattenRoutes strapi objects).1
      (flattenRoutes strapi objects).2 cacheRoute = some id) :
    (after id).globalPath = some cacheRoute.path := by
  have hmatch := (foundAt_some hfound).right
  unfold matchesRoute at hmatch
  rw [Bool.and_eq_true] at hmatch
  have hsame := of_decide_eq_true hmatch.right
  rw [normalizeRoutePath_eq hlast] at hsame
  rw [injectMiddlewares_object h, attach_globalPath]
  cases hglobal : ((flattenRoutes strapi objects).2 id).globalPath with
  | none =>
      rw [hglobal] at hsame
      exact absurd hsame.symm hpath
  | some globalPath =>
      rw [hglobal, normalizeRoutePath_eq (hplus id globalPath hglobal)] at hsame
      rw [hsame]

theorem mem_configured {strategy : CachePluginStrategy Context}
    {z : Option JsString × CacheRouteConfig Context} :
    z ∈ configured strategy <->
      exists cacheConf, cacheConf ∈ strategy.contentTypes ∧
        z.2 ∈ cacheConf.routes ∧ z.1 = cacheConf.contentType := by
  unfold configured
  rw [List.mem_flatMap]
  constructor
  · intro h
    rcases h with ⟨cacheConf, hconf, hz⟩
    rcases List.mem_map.mp hz with ⟨cacheRoute, hroute, rfl⟩
    exact ⟨cacheConf, hconf, hroute, rfl⟩
  · intro h
    rcases h with ⟨cacheConf, hconf, hroute, htype⟩
    exact ⟨cacheConf, hconf, List.mem_map.mpr ⟨z.2, hroute, by rw [← htype]⟩⟩

def ServedByRecv (strategy : CachePluginStrategy Context)
    (after : Objects Context) (cacheRoute : CacheRouteConfig Context) : Prop :=
  exists id other cacheConf, (after id).method = some HttpMethod.GET ∧
    (after id).globalPath = some cacheRoute.path ∧
    RouteMiddleware.object recvUid (MiddlewareConfig.cacheRouteConfig other) ∈
      (after id).middlewares ∧
    other.path = cacheRoute.path ∧ cacheConf ∈ strategy.contentTypes ∧
    other ∈ cacheConf.routes

theorem default_has_recv
    (huids : userOptions.contentTypes.getD [] = uids.map ContentTypeInput.uid)
    (hresolved : resolveUserStrategy view userOptions = Except.ok resolved)
    (hplain : PlainNames view) (hmounts : Mounts view strapi objects)
    (hplus : NoPlus strapi objects)
    (h : injectMiddlewares strapi resolved.strategy objects = Except.ok after)
    (hconf : cacheConf ∈ resolved.strategy.contentTypes)
    (hroute : cacheRoute ∈ cacheConf.routes)
    (hget : cacheRoute.method = HttpMethod.GET) :
    ServedByRecv resolved.strategy after cacheRoute := by
  rcases (get_of_uids huids hresolved hconf).left with ⟨uid, hbecomes⟩
  have hdefault := (isDefault_of_uid hbecomes).right cacheRoute hroute
  rcases isDefault_spelled hplain hdefault with ⟨hne, hlast, _⟩
  rcases hdefault with ⟨_, tail, routers, given, _, _, hrouters, hgiven, hmethod,
    htail, hpath, _⟩
  rcases hmounts _ routers given hrouters hgiven with
    ⟨mounted, hmem, hmountedMethod, hmountedPath⟩
  have hmatch : matchesRoute cacheRoute
      ((flattenRoutes strapi objects).2 mounted) = true := by
    unfold matchesRoute
    rw [flattened_method, hmountedMethod, hmethod, hmountedPath, hpath]
    simp
  cases hfound : foundAt (flattenRoutes strapi objects).1
      (flattenRoutes strapi objects).2 cacheRoute with
  | none => exact absurd hmatch (List.find?_eq_none.mp hfound mounted hmem)
  | some id =>
      have hmethodAt := method_of_matchesRoute (foundAt_some hfound).right
      rw [flattened_method, hget] at hmethodAt
      have hassigned : (cacheConf.contentType, cacheRoute) ∈
          assigned strapi resolved.strategy objects id :=
        List.mem_filter.mpr ⟨mem_configured.mpr ⟨cacheConf, hconf, hroute, rfl⟩,
          decide_eq_true hfound⟩
      rcases List.getLast?_isSome.mpr (List.ne_nil_of_mem hassigned) |>
        Option.isSome_iff_exists.mp with ⟨z, hz⟩
      have hrecv := injected_recv h id
      rw [recvFor, if_pos hmethodAt, hz] at hrecv
      have hglobal := globalPath_of_found h hplus hne hlast hfound
      -- the last route that is found at this object, maybe another type's
      rcases List.mem_filter.mp (List.mem_of_getLast? hz) with
        ⟨hconfigured, hother⟩
      rcases mem_configured.mp hconfigured with ⟨otherConf, hotherConf, hlisted, _⟩
      rcases (get_of_uids huids hresolved hotherConf).left with
        ⟨otherUid, hotherBecomes⟩
      rcases isDefault_spelled hplain
        ((isDefault_of_uid hotherBecomes).right z.2 hlisted) with
        ⟨hotherNe, hotherLast, _⟩
      have hsame := globalPath_of_found h hplus hotherNe hotherLast
        (of_decide_eq_true hother)
      rw [hglobal, Option.some.injEq] at hsame
      exact ⟨id, z.2, otherConf, (injected_method h id).trans hmethodAt, hglobal,
        List.mem_of_find?_eq_some hrecv, hsame.symm, hotherConf, hlisted⟩

theorem allRead_of_uids
    (huids : userOptions.contentTypes.getD [] = uids.map ContentTypeInput.uid)
    (hresolved : resolveUserStrategy view userOptions = Except.ok resolved)
    (hplain : PlainNames view) :
    Config.AllRead (strategySeen resolved.strategy) := by
  intro contentType seen hseen
  unfold Config.purgedRoutes at hseen
  split at hseen
  · exact absurd hseen List.not_mem_nil
  · rename_i found hfound
    rcases List.mem_map.mp (List.mem_of_find?_eq_some hfound) with
      ⟨cacheConf, hconf, rfl⟩
    rcases List.mem_map.mp (List.mem_filter.mp hseen).left with
      ⟨cacheRoute, hroute, rfl⟩
    rcases (get_of_uids huids hresolved hconf).left with ⟨uid, hbecomes⟩
    exact (isDefault_spelled hplain
      ((isDefault_of_uid hbecomes).right cacheRoute hroute)).right.right

/-- Whatever is stored behind a `recv` the purge of its content type reaches. -/
theorem recv_is_purged
    (huids : userOptions.contentTypes.getD [] = uids.map ContentTypeInput.uid)
    (hresolved : resolveUserStrategy view userOptions = Except.ok resolved)
    (hplain : PlainNames view) (hnone : NoRecv objects)
    (hplus : NoPlus strapi objects)
    (h : injectMiddlewares strapi resolved.strategy objects = Except.ok after)
    (hrecv : RouteMiddleware.object recvUid
      (MiddlewareConfig.cacheRouteConfig cacheRoute) ∈ (after id).middlewares) :
    exists cacheConf route, cacheConf ∈ resolved.strategy.contentTypes ∧
      cacheRoute ∈ cacheConf.routes ∧
      (after id).globalPath = some (render route) ∧
      forall (ctx : Keys.Context) (keys : Keys.CacheKeysConfig),
        Config.RequestPath ctx.path -> Router.Serves route ctx.path ->
          Config.Purges (strategySeen resolved.strategy)
            (printed cacheConf.contentType)
            (Keys.generateCacheKey CaseMapping.latin1 ctx keys) := by
  rcases assigned_of_recv h hnone hrecv with ⟨contentType, hassigned, hget⟩
  rcases List.mem_filter.mp hassigned with ⟨hconfigured, hfound⟩
  rcases mem_configured.mp hconfigured with ⟨cacheConf, hconf, hroute, _⟩
  rcases get_of_uids huids hresolved hconf with ⟨⟨uid, hbecomes⟩, hgetConf⟩
  have hspelled : forall other, other ∈ cacheConf.routes ->
      other.path ≠ [] ∧ other.path.getLast? ≠ some '+' ∧
        exists route, Config.ReadAs (routeSeen other) route :=
    fun other hother => isDefault_spelled hplain
      ((isDefault_of_uid hbecomes).right other hother)
  rcases hspelled cacheRoute hroute with ⟨hne, hlast, route, hmine⟩
  refine ⟨cacheConf, route, hconf, hroute, ?_, ?_⟩
  · rw [globalPath_of_found h hplus hne hlast (of_decide_eq_true hfound)]
    exact congrArg some hmine.path
  · intro ctx keys hpath hserves
    refine Config.purges_of_taken (allRead_of_uids huids hresolved hplain) hpath
      ⟨routeSeen cacheRoute, route, ?_, hmine, hserves⟩ keys
    rw [Config.purgedRoutes, hgetConf]
    apply List.mem_filter.mpr
    refine ⟨List.mem_map_of_mem hroute, decide_eq_true ?_⟩
    show methodText cacheRoute.method = _
    rw [hget]
    rfl

end Registration

/--
Every cached default route is served by an object with a `recv`, and whatever is
stored behind any `recv` the wildcard purge of its content type finds.
-/
structure CachedAndPurged (strategy : CachePluginStrategy Context)
    (after : Objects Context) : Prop where
  served : forall cacheConf cacheRoute, cacheConf ∈ strategy.contentTypes ->
    cacheRoute ∈ cacheConf.routes -> cacheRoute.method = HttpMethod.GET ->
      ServedByRecv strategy after cacheRoute
  purged : forall id cacheRoute,
    RouteMiddleware.object recvUid
      (MiddlewareConfig.cacheRouteConfig cacheRoute) ∈ (after id).middlewares ->
    exists cacheConf route, cacheConf ∈ strategy.contentTypes ∧
      cacheRoute ∈ cacheConf.routes ∧
      (after id).globalPath = some (render route) ∧
      forall (ctx : Keys.Context) (keys : Keys.CacheKeysConfig),
        Config.RequestPath ctx.path -> Router.Serves route ctx.path ->
          Config.Purges (strategySeen strategy)
            (printed cacheConf.contentType)
            (Keys.generateCacheKey CaseMapping.latin1 ctx keys)

/-- From the options to the keys, for content types that are listed by uid. -/
theorem uids_cached_and_purged {view : Strategy.Strapi}
    {userOptions : CachePluginStrategyInput Context} {uids : List JsString}
    {resolved : Resolved Context} {strapi : Strapi}
    {objects after : Objects Context}
    (huids : userOptions.contentTypes.getD [] = uids.map ContentTypeInput.uid)
    (hresolved : resolveUserStrategy view userOptions = Except.ok resolved)
    (hplain : PlainNames view) (hmounts : Mounts view strapi objects)
    (hnone : NoRecv objects) (hplus : NoPlus strapi objects)
    (h : injectMiddlewares strapi resolved.strategy objects = Except.ok after) :
    CachedAndPurged resolved.strategy after where
  served _ _ hconf hroute hget :=
    default_has_recv huids hresolved hplain hmounts hplus h hconf hroute hget
  purged _ _ hrecv :=
    recv_is_purged huids hresolved hplain hnone hplus h hrecv

/-!
## Pages
-/

def pagesApi : List Strategy.ApiRoute :=
  [{ method := some HttpMethod.GET, path := "/pages".toList },
    { method := some HttpMethod.GET, path := "/pages/:id".toList },
    { method := some HttpMethod.PUT, path := "/pages/:id".toList }]

def pagesView : Strategy.Strapi :=
  { Strategy.oneContentType Strategy.pageUid Strategy.pageType with
    apis := fun name => if name = "page".toList then some [pagesApi] else none }

def pagesOptions : CachePluginStrategyInput Unit :=
  { (Strategy.noStrategyOptions : CachePluginStrategyInput Unit) with
    contentTypes := Property.value [ContentTypeInput.uid Strategy.pageUid] }

def pagesStrapi : Strapi where
  apis := [RouteContainer.record [RouteContainer.routes [0, 1, 2]]]
  plugins := []
  apiPrefix := "/api".toList

def pagesObjects (id : RouteId) : FlattenedRoute Unit :=
  let given := pagesApi.getD id { method := none, path := "/pages".toList }
  { method := given.method
    path := given.path
    globalPath := none
    config := RouteConfig.undefined }

theorem pages_mounts : Mounts pagesView pagesStrapi pagesObjects := by
  intro apiName routers given hrouters hgiven
  have hsome : some [pagesApi] = some routers := by
    unfold pagesView at hrouters
    simp only at hrouters
    split at hrouters
    · exact hrouters
    · cases hrouters
  rcases Option.some.inj hsome with rfl
  rcases List.mem_cons.mp hgiven with rfl | hgiven
  · exact ⟨0, by decide, rfl, rfl⟩
  · rcases List.mem_cons.mp hgiven with rfl | hgiven
    · exact ⟨1, by decide, rfl, rfl⟩
    · rcases List.mem_singleton.mp hgiven with rfl
      exact ⟨2, by decide, rfl, rfl⟩

theorem pages_noPlus : NoPlus pagesStrapi pagesObjects := by
  intro id globalPath hglobal
  rw [flattenRoutes_objects] at hglobal
  have hpath : (if id ∈ [0, 1, 2] then
      some (apiGlobalPath pagesStrapi.apiPrefix (pagesObjects id)) else none) =
        some globalPath := hglobal
  split at hpath
  · rename_i hmem
    rw [← Option.some.inj hpath]
    simp only [List.mem_cons, List.not_mem_nil, or_false] at hmem
    rcases hmem with rfl | rfl | rfl <;> decide
  · cases hpath

theorem static_pages : PlainNames pagesView := by
  constructor
  · refine ⟨["api".toList], rfl, ?_⟩
    intro segment hsegment
    rw [List.mem_singleton.mp hsegment]
    decide
  · intro uid contentType hcontentType
    have hpage : (if uid = Strategy.pageUid then some Strategy.pageType else none) =
      some contentType := hcontentType
    split at hpage
    · rw [← Option.some.inj hpage]
      decide
    · cases hpage

theorem uids_cached_and_purged_pages :
    exists resolved after,
      resolveUserStrategy pagesView pagesOptions = Except.ok resolved ∧
        injectMiddlewares pagesStrapi resolved.strategy pagesObjects =
          Except.ok after ∧
        CachedAndPurged resolved.strategy after := by
  have hwritable : forall given : List (Attachment Unit),
      Writable given (flattenRoutes pagesStrapi pagesObjects).2 := by
    intro given attachment _
    rw [flattenRoutes_objects]
    intro h
    cases h
  cases hresolved : resolveUserStrategy pagesView pagesOptions with
  | error e => cases hresolved
  | ok resolved =>
      have hinjected : injectMiddlewares pagesStrapi resolved.strategy
          pagesObjects = Except.ok (attached (attachments pagesStrapi
            resolved.strategy pagesObjects)
              (flattenRoutes pagesStrapi pagesObjects).2) := by
        apply injectMiddlewares_ok.mpr
        refine ⟨?_, hwritable _, rfl⟩
        intro hadmin
        rw [← Except.ok.inj hresolved] at hadmin
        cases hadmin
      exact ⟨resolved, _, rfl, hinjected,
        @uids_cached_and_purged Unit pagesView pagesOptions
          [Strategy.pageUid] resolved pagesStrapi pagesObjects _ rfl hresolved
          static_pages pages_mounts (fun _ => rfl) pages_noPlus hinjected⟩

end Boot
end RestCache
