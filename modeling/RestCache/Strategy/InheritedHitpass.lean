import RestCache.Strategy.ResolvedRoutes

/-!
# Inherited hitpass

A listed route that sets no hitpass takes what its content type and the strategy
say.  Where its entries are shared, a request is looked up only if both of them
look it up.
-/

namespace RestCache
namespace Strategy

open Foundation

variable {Context : Type _}

section Inherited

variable (strategyHitpass : Hitpass Context)
  (contentTypeHitpass : Option (Hitpass Context))

/-- The route looks up no more than what it inherits allows. -/
structure KeepsBypass (route : CacheRouteConfig Context) (ctx : Context) :
    Prop where
  shared : route.keys.useAuth.truthy = false ->
    shouldLookup ctx (some route.hitpass) = Except.ok true ->
      shouldLookup ctx (some strategyHitpass) = Except.ok true ∧
        forall hitpass, contentTypeHitpass = some hitpass ->
          shouldLookup ctx (some hitpass) = Except.ok true
  keyed : route.keys.useAuth = UseAuth.bool true ->
    shouldLookup ctx (some route.hitpass) =
      shouldLookup ctx (some (contentTypeHitpass.getD strategyHitpass))

variable {strategyHitpass contentTypeHitpass}

theorem keepsBypass_of_strategy {route : CacheRouteConfig Context}
    (h : route.hitpass = strategyHitpass) (ctx : Context) :
    KeepsBypass strategyHitpass none route ctx := by
  constructor
  · intro _ hlookup
    rw [h] at hlookup
    exact ⟨hlookup, fun _ hnone => nomatch hnone⟩
  · intro _
    rw [h]
    rfl

theorem keepsBypass_of_contentType {hitpass : Hitpass Context}
    {route : CacheRouteConfig Context}
    (h : some route.hitpass =
      listedRouteHitpass (some strategyHitpass) (some hitpass)
        route.keys.useAuth) (ctx : Context) :
    KeepsBypass strategyHitpass (some hitpass) route ctx := by
  constructor
  · intro hshared hlookup
    have hauth : route.keys.useAuth ≠ UseAuth.bool true := by
      intro hauth
      rw [hauth] at hshared
      exact Bool.noConfusion hshared
    rw [h, shouldLookup_listed hauth] at hlookup
    refine ⟨hlookup.left, ?_⟩
    intro given hgiven
    rcases Option.some.inj hgiven with rfl
    exact hlookup.right
  · intro hauth
    rw [h, listedRouteHitpass, hauth]
    rfl

theorem ResolvesListed.keepsBypass {inherited : Inherited Context}
    {given : RouteInput Context} {route : CacheRouteConfig Context}
    (h : ResolvesListed inherited given route)
    (hstrategy : inherited.strategyHitpass = some strategyHitpass)
    (hown : given.ownHitpass = none) (ctx : Context) :
    KeepsBypass strategyHitpass inherited.contentTypeHitpass route ctx := by
  have hhitpass := h.hitpass
  rw [hown, Option.none_or, hstrategy] at hhitpass
  cases hcontentType : inherited.contentTypeHitpass with
  | none =>
      rw [hcontentType] at hhitpass
      exact keepsBypass_of_strategy hhitpass ctx
  | some hitpass =>
      rw [hcontentType] at hhitpass
      apply keepsBypass_of_contentType _ ctx
      rw [hhitpass, listedRouteHitpass]
      split
      · rfl
      · rfl

end Inherited

/-!
## Resolved routes
-/

section Resolved

variable (userOptions : CachePluginStrategyInput Context)
  (resolved : Resolved Context)

structure ListsAt (i j : Nat) (entry : CacheContentTypeConfigInput Context)
    (given : RouteInput Context) : Prop where
  entry_at : (userOptions.contentTypes.getD [])[i]? =
    some (ContentTypeInput.options entry)
  route_at : (entry.routes.getD [])[j]? = some given

def HasRouteAt (i j : Nat) (route : CacheRouteConfig Context) : Prop :=
  exists contentType, resolved.strategy.contentTypes[i]? = some contentType ∧
    contentType.routes[j]? = some route

variable {userOptions resolved}

theorem listed_hasRouteAt {strapi : Strapi} {i j : Nat}
    {entry : CacheContentTypeConfigInput Context} {given : RouteInput Context}
    (hresolved : resolveUserStrategy strapi userOptions = Except.ok resolved)
    (hlists : ListsAt userOptions i j entry given) :
    exists route, HasRouteAt resolved i j route ∧
      ResolvesListed (entry.inherited userOptions) given route := by
  rcases exists_related_at (resolved_contentTypes hresolved) hlists.entry_at with
    ⟨contentType, hat, hbecomes⟩
  rcases hbecomes.listed with ⟨listed, injected, hroutes, hlisted⟩
  rcases exists_related_at hlisted hlists.route_at with ⟨route, hroute, hresolves⟩
  refine ⟨route, ⟨contentType, hat, ?_⟩, hresolves⟩
  rw [hroutes, List.getElem?_append_left (List.getElem?_eq_some_iff.mp hroute).1]
  exact hroute

/-- Inheriting the content type's hitpass shares no more than before. -/
theorem listed_route_keepsBypass {strapi : Strapi} {i j : Nat}
    {entry : CacheContentTypeConfigInput Context} {given : RouteInput Context}
    {strategyHitpass : Hitpass Context}
    (hresolved : resolveUserStrategy strapi userOptions = Except.ok resolved)
    (hstrategy : userOptions.hitpass.get? = some strategyHitpass)
    (hlists : ListsAt userOptions i j entry given)
    (hown : given.ownHitpass = none) :
    exists route, HasRouteAt resolved i j route ∧
      forall ctx, KeepsBypass strategyHitpass entry.hitpass.get? route ctx := by
  rcases listed_hasRouteAt hresolved hlists with ⟨route, hroute, hresolves⟩
  refine ⟨route, hroute, ?_⟩
  intro ctx
  have hkeeps := hresolves.keepsBypass hstrategy hown ctx
  rwa [CacheContentTypeConfigInput.inherited, inheritedBy,
    CacheContentTypeConfigInput.definedOnly, Property.get?_definedOnly]
    at hkeeps

/-!
## Example
-/

def oneContentType (uid : JsString) (contentType : ContentType) : Strapi where
  contentType := fun asked => if asked = uid then some contentType else none
  apis := fun _ => none
  apiPrefix := "/api".toList
  schemas := { components := [], contentTypes := [] }

def pageType : ContentType where
  kind := Kind.collectionType
  plugin := none
  singularName := "page".toList
  pluralName := "pages".toList

def pageUid : JsString :=
  "api::page.page".toList

def noEntryOptions : CacheContentTypeConfigInput Context where
  contentType := Property.absent
  singleType := Property.absent
  injectDefaultRoutes := Property.absent
  maxAge := Property.absent
  hitpass := Property.absent
  keys := Property.absent
  routes := Property.absent
  relatedContentTypeUid := Property.absent
  plugin := Property.absent

def noStrategyOptions : CachePluginStrategyInput Context where
  debug := Property.absent
  enableEtag := Property.absent
  enableXCacheHeaders := Property.absent
  enableAdminCTBMiddleware := Property.absent
  enableDocumentServiceMiddleware := Property.absent
  enableContentApiPurge := Property.absent
  resetOnStartup := Property.absent
  clearRelatedCache := Property.absent
  maxAge := Property.absent
  keysPrefix := Property.absent
  contentTypes := Property.absent
  keys := Property.absent
  cacheControl := Property.absent
  hitpass := Property.absent

def pageEntry (hitpass : Hitpass Context) : CacheContentTypeConfigInput Context :=
  { (noEntryOptions : CacheContentTypeConfigInput Context) with
    contentType := Property.value pageUid
    injectDefaultRoutes := Property.value false
    hitpass := Property.value hitpass
    routes := Property.value [RouteInput.path "/api/pages".toList] }

def pageStrategy (strategyHitpass hitpass : Hitpass Context) :
    CachePluginStrategyInput Context :=
  { (noStrategyOptions : CachePluginStrategyInput Context) with
    contentTypes := Property.value
      [ContentTypeInput.options (pageEntry hitpass)]
    hitpass := Property.value strategyHitpass }

theorem pageStrategy_listsAt (strategyHitpass hitpass : Hitpass Context) :
    ListsAt (pageStrategy strategyHitpass hitpass) 0 0 (pageEntry hitpass)
      (RouteInput.path "/api/pages".toList) :=
  ⟨rfl, rfl⟩

def bypassesCredentials : Hitpass Bool :=
  Hitpass.function Except.ok

theorem listed_route_keepsBypass_pages :
    exists resolved,
      resolveUserStrategy (oneContentType pageUid pageType)
          (pageStrategy bypassesCredentials (Hitpass.bool false)) =
        Except.ok resolved ∧
      exists route, HasRouteAt resolved 0 0 route ∧
        forall ctx, KeepsBypass bypassesCredentials
          (some (Hitpass.bool false)) route ctx :=
  ⟨_, rfl, @listed_route_keepsBypass _ _ _ (oneContentType pageUid pageType)
    _ _ _ _ _ rfl rfl (pageStrategy_listsAt _ _) rfl⟩

end Resolved

end Strategy
end RestCache
