import RestCache.Foundation.FallibleMap
import RestCache.Strategy.Resolve

/-!
# What a resolved route comes from

A route of a resolved content type was listed under its entry, or it was injected
for one of the API's default routes.  Listed routes come first and keep their
order.
-/

namespace RestCache
namespace Strategy

open Foundation

variable {Context : Type _}

/-!
## What a listed route says itself
-/

namespace RouteInput

def ownMethod : RouteInput Context -> Option HttpMethod
  | path _ => none
  | RouteInput.options route => route.method.get?

def ownKeys : RouteInput Context -> Option KeysOption
  | path _ => none
  | RouteInput.options route => route.keys.get?

def ownHitpass : RouteInput Context -> Option (Hitpass Context)
  | path _ => none
  | RouteInput.options route => route.hitpass.get?

def keysUnder (route : RouteInput Context) (contentTypeKeys : Option KeysOption) :
    CacheKeysConfig :=
  CacheKeysConfig.new (route.ownKeys.or contentTypeKeys)

end RouteInput

structure ResolvesListed (inherited : Inherited Context)
    (given : RouteInput Context) (route : CacheRouteConfig Context) : Prop where
  method : route.method = given.ownMethod.getD HttpMethod.GET
  keys : route.keys = given.keysUnder inherited.contentTypeKeys
  hitpass : route.hitpass =
    (given.ownHitpass.or
      (listedRouteHitpass inherited.strategyHitpass inherited.contentTypeHitpass
        route.keys.useAuth)).getD (Hitpass.bool false)

theorem listedRoute_of_path (inherited : Inherited Context)
    {value : CacheRouteConfigInput Context} {path : JsString}
    (hpath : value.path.get? = some path) :
    listedRoute inherited (RouteInput.options value) =
      let keys := (RouteInput.options value).keysUnder inherited.contentTypeKeys
      Except.ok (CacheRouteConfig.new
        { path := value.path.definedOnly
          method := value.method.definedOnly
          keys := Property.value (KeysOption.config keys)
          maxAge := value.maxAge.definedOnly.spreadOver
            (Property.ofOption inherited.contentTypeMaxAge)
          hitpass := value.hitpass.definedOnly.spreadOver
            (inheritedHitpass inherited keys)
          paramNames := value.paramNames.definedOnly.spreadOver
            (Property.value (Config.routeParamNames path)) }) := by
  have hdefined : value.definedOnly.path.get? = some path :=
    (Property.get?_definedOnly value.path).trans hpath
  have hkeys : value.definedOnly.keys.get? = value.keys.get? :=
    Property.get?_definedOnly value.keys
  simp only [listedRoute, hdefined, hkeys, RouteInput.keysUnder,
    RouteInput.ownKeys]
  cases value.keys.get? with
  | none => rfl
  | some keys => rfl

theorem listedRoute_of_no_path (inherited : Inherited Context)
    {value : CacheRouteConfigInput Context} (hpath : value.path.get? = none) :
    listedRoute inherited (RouteInput.options value) =
      Except.error (ResolveError.undefinedRead "match".toList) := by
  have hdefined : value.definedOnly.path.get? = none :=
    (Property.get?_definedOnly value.path).trans hpath
  simp only [listedRoute, hdefined]

theorem listedRoute_resolves {inherited : Inherited Context}
    {given : RouteInput Context} {route : CacheRouteConfig Context}
    (h : listedRoute inherited given = Except.ok route) :
    ResolvesListed inherited given route := by
  cases given with
  | path value =>
      rcases Except.ok.inj h with rfl
      refine ⟨rfl, rfl, ?_⟩
      show (inheritedHitpass inherited _).getD _ = _
      rw [Property.getD, inheritedHitpass, Property.get?_ofOption]
      rfl
  | options value =>
      cases hpath : value.path.get? with
      | none =>
          rw [listedRoute_of_no_path inherited hpath] at h
          exact nomatch h
      | some path =>
          rw [listedRoute_of_path inherited hpath] at h
          rcases Except.ok.inj h with rfl
          constructor
          · show value.method.definedOnly.getD _ = _
            rw [Property.getD, Property.get?_definedOnly]
            rfl
          · rfl
          · show (value.hitpass.definedOnly.spreadOver _).getD _ = _
            rw [Property.getD, Property.get?_spreadOver_definedOnly,
              inheritedHitpass, Property.get?_ofOption]
            rfl

/-!
## The first loop
-/

section Draft

variable {userOptions : CachePluginStrategyInput Context}
  {draft : DraftContentTypeConfig Context}

def CacheContentTypeConfigInput.inherited
    (entry : CacheContentTypeConfigInput Context)
    (userOptions : CachePluginStrategyInput Context) : Inherited Context :=
  inheritedBy userOptions entry.definedOnly

def ContentTypeInput.ownHitpass :
    ContentTypeInput Context -> Option (Hitpass Context)
  | uid _ => none
  | ContentTypeInput.options entry => entry.hitpass.get?

theorem draftOf_options (entry : CacheContentTypeConfigInput Context) :
    draftOf userOptions (ContentTypeInput.options entry) =
      ((entry.definedOnly.routes.getD []).mapM
        (listedRoute (entry.inherited userOptions))).map fun routes =>
          { contentType := entry.contentType.definedOnly.get?
            singleType :=
              entry.singleType.definedOnly.spreadOver (Property.value false)
            injectDefaultRoutes :=
              entry.injectDefaultRoutes.definedOnly.spreadOver (Property.value true)
            maxAge := entry.maxAge.definedOnly.spreadOver
              (Property.ofOption userOptions.maxAge.get?)
            hitpass := entry.hitpass.definedOnly.spreadOver
              (Property.ofOption userOptions.hitpass.get?)
            keys :=
              CacheKeysConfig.new (entry.inherited userOptions).contentTypeKeys
            routes
            relatedContentTypeUid := entry.relatedContentTypeUid.definedOnly
            plugin := entry.plugin.definedOnly } :=
  rfl

theorem draftOf_routes {entry : CacheContentTypeConfigInput Context}
    (h : draftOf userOptions (ContentTypeInput.options entry) =
      Except.ok draft) :
    List.Forall₂ (fun given route =>
        listedRoute (entry.inherited userOptions) given = Except.ok route)
      (entry.routes.getD []) draft.routes := by
  rw [draftOf_options, map_eq_ok] at h
  rcases h with ⟨routes, hroutes, rfl⟩
  have hlisted := mapM_eq_ok.mp hroutes
  rwa [CacheContentTypeConfigInput.definedOnly, Property.getD,
    Property.get?_definedOnly] at hlisted

theorem draftOf_hitpass {entry : ContentTypeInput Context}
    (h : draftOf userOptions entry = Except.ok draft) :
    draft.hitpass.get? = entry.ownHitpass.or userOptions.hitpass.get? := by
  cases entry with
  | uid contentType =>
      rcases Except.ok.inj h with rfl
      exact Property.get?_ofOption _
  | options entry =>
      rw [draftOf_options, map_eq_ok] at h
      rcases h with ⟨routes, _, rfl⟩
      show (entry.hitpass.definedOnly.spreadOver _).get? = _
      rw [Property.get?_spreadOver_definedOnly, Property.get?_ofOption]
      rfl

end Draft

/-!
## The second loop
-/

def Injected (strapi : Strapi) (cacheConfig : DraftContentTypeConfig Context)
    (route : CacheRouteConfig Context) : Prop :=
  exists path method, route = injectedRoute strapi cacheConfig path method

section Completed

variable {strapi : Strapi} {cacheConfig complete : DraftContentTypeConfig Context}

theorem injectedIf_injected {methods : List HttpMethod} {path : JsString}
    {given : ApiRoute} {route : CacheRouteConfig Context}
    (h : route ∈ injectedIf strapi cacheConfig methods path given) :
    Injected strapi cacheConfig route := by
  rw [injectedIf] at h
  cases hmethod : given.method with
  | none =>
      rw [hmethod] at h
      exact absurd h List.not_mem_nil
  | some method =>
      rw [hmethod] at h
      dsimp only at h
      split at h
      · exact ⟨given.path, method, List.mem_singleton.mp h⟩
      · exact absurd h List.not_mem_nil

theorem injectedFor_injected {contentType : ContentType} {given : ApiRoute}
    {route : CacheRouteConfig Context}
    (h : route ∈ injectedFor strapi cacheConfig contentType given) :
    Injected strapi cacheConfig route := by
  rw [injectedFor] at h
  split at h
  · exact injectedIf_injected h
  · rcases List.mem_append.mp h with h | h
    · exact injectedIf_injected h
    · exact injectedIf_injected h

theorem completed_routes (h : completed strapi cacheConfig = Except.ok complete) :
    exists injected, complete.routes = cacheConfig.routes ++ injected ∧
      forall route, route ∈ injected -> Injected strapi cacheConfig route := by
  have hnone : exists injected : List (CacheRouteConfig Context),
      cacheConfig.routes = cacheConfig.routes ++ injected ∧
        forall route, route ∈ injected -> Injected strapi cacheConfig route :=
    ⟨[], (List.append_nil _).symm, fun _ h => absurd h List.not_mem_nil⟩
  rw [completed] at h
  split at h
  · exact nomatch h
  · rename_i contentType _
    dsimp only at h
    split at h
    · rcases Except.ok.inj h with rfl
      exact hnone
    · split at h
      · rcases Except.ok.inj h with rfl
        exact hnone
      · split at h
        · exact nomatch h
        · split at h
          · exact nomatch h
          · rename_i routes _
            rcases Except.ok.inj h with rfl
            refine ⟨routes.flatten.flatMap (injectedFor strapi
              (describedBy strapi contentType cacheConfig) contentType), rfl, ?_⟩
            intro route hroute
            rcases List.mem_flatMap.mp hroute with ⟨given, _, hgiven⟩
            -- injecting reads nothing that describing the content type sets
            exact injectedFor_injected hgiven

end Completed

/-!
## Entries and content types
-/

section Entries

variable (strapi : Strapi) (userOptions : CachePluginStrategyInput Context)

/-- The content type that an entry becomes. -/
def BecomesContentType (entry : ContentTypeInput Context)
    (contentType : CacheContentTypeConfig Context) : Prop :=
  exists draft complete, draftOf userOptions entry = Except.ok draft ∧
    completed strapi draft = Except.ok complete ∧
      contentType = CacheContentTypeConfig.new complete

variable {strapi userOptions}

theorem resolved_contentTypes {resolved : Resolved Context}
    (h : resolveUserStrategy strapi userOptions = Except.ok resolved) :
    List.Forall₂ (BecomesContentType strapi userOptions)
      (userOptions.contentTypes.getD []) resolved.strategy.contentTypes := by
  rw [resolveUserStrategy, bind_eq_ok] at h
  rcases h with ⟨drafts, hdrafts, h⟩
  rw [map_eq_ok] at h
  rcases h with ⟨cacheConfigs, hconfigs, rfl⟩
  show List.Forall₂ _ _ (cacheConfigs.map CacheContentTypeConfig.new)
  rw [List.forall₂_map_right_iff]
  apply (related_through (mapM_eq_ok.mp hdrafts) (mapM_eq_ok.mp hconfigs)).imp
  intro entry complete h
  rcases h with ⟨draft, hdraft, hcomplete⟩
  exact ⟨draft, complete, hdraft, hcomplete, rfl⟩

variable {contentType : CacheContentTypeConfig Context}

theorem BecomesContentType.listed {entry : CacheContentTypeConfigInput Context}
    (h : BecomesContentType strapi userOptions (ContentTypeInput.options entry)
      contentType) :
    exists listed injected, contentType.routes = listed ++ injected ∧
      List.Forall₂ (ResolvesListed (entry.inherited userOptions))
        (entry.routes.getD []) listed := by
  rcases h with ⟨draft, complete, hdraft, hcomplete, rfl⟩
  rcases completed_routes hcomplete with ⟨injected, hroutes, _⟩
  exact ⟨draft.routes, injected, hroutes,
    (draftOf_routes hdraft).imp fun _ _ => listedRoute_resolves⟩

theorem BecomesContentType.route_cases {entry : ContentTypeInput Context}
    (h : BecomesContentType strapi userOptions entry contentType)
    {route : CacheRouteConfig Context} (hroute : route ∈ contentType.routes) :
    (exists (given : CacheContentTypeConfigInput Context) (r : RouteInput Context),
      entry = ContentTypeInput.options given ∧ r ∈ given.routes.getD [] ∧
        ResolvesListed (given.inherited userOptions) r route) ∨
      route.hitpass = (entry.ownHitpass.or userOptions.hitpass.get?).getD
        (Hitpass.bool false) := by
  rcases h with ⟨draft, complete, hdraft, hcomplete, rfl⟩
  rcases completed_routes hcomplete with ⟨injected, hroutes, hinjected⟩
  change route ∈ complete.routes at hroute
  rw [hroutes, List.mem_append] at hroute
  rcases hroute with hlisted | hroute
  · left
    cases entry with
    | uid uid =>
        rcases Except.ok.inj hdraft with rfl
        exact absurd hlisted List.not_mem_nil
    | options given =>
        rcases exists_related_right (draftOf_routes hdraft) hlisted with
          ⟨r, hr, hresolves⟩
        exact ⟨given, r, rfl, hr, listedRoute_resolves hresolves⟩
  · right
    rcases hinjected route hroute with ⟨path, method, rfl⟩
    show draft.hitpass.get?.getD _ = _
    rw [draftOf_hitpass hdraft]

end Entries

end Strategy
end RestCache
