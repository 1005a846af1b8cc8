import RestCache.Strategy.InheritedHitpass

/-!
# Undefined options and omitted options

An option that is undefined, anywhere in the configuration, resolves to what
leaving it out resolves to.
-/

namespace RestCache
namespace Strategy

open Foundation

variable {Context : Type _}

/-!
## Leaving options out
-/

/-- The second options leave out some that are undefined in the first. -/
structure CacheKeysConfigInput.Drops (u v : CacheKeysConfigInput) : Prop where
  useHeaders : Property.Drops Eq u.useHeaders v.useHeaders
  useQueryParams : Property.Drops Eq u.useQueryParams v.useQueryParams
  useAuth : Property.Drops Eq u.useAuth v.useAuth

inductive KeysOption.Drops : KeysOption -> KeysOption -> Prop where
  | config (keys : CacheKeysConfig) :
      KeysOption.Drops (KeysOption.config keys) (KeysOption.config keys)
  | options {u v : CacheKeysConfigInput} : u.Drops v ->
      KeysOption.Drops (KeysOption.options u) (KeysOption.options v)

structure CacheControlConfigInput.Drops (u v : CacheControlConfigInput) :
    Prop where
  enabled : Property.Drops Eq u.enabled v.enabled
  maxAge : Property.Drops Eq u.maxAge v.maxAge
  scope : Property.Drops Eq u.scope v.scope
  staleWhileRevalidate :
    Property.Drops Eq u.staleWhileRevalidate v.staleWhileRevalidate

inductive CacheControlOption.Drops :
    CacheControlOption -> CacheControlOption -> Prop where
  | config (cacheControl : CacheControlConfig) :
      CacheControlOption.Drops (CacheControlOption.config cacheControl)
        (CacheControlOption.config cacheControl)
  | options {u v : CacheControlConfigInput} : u.Drops v ->
      CacheControlOption.Drops (CacheControlOption.options u)
        (CacheControlOption.options v)

structure CacheRouteConfigInput.Drops (u v : CacheRouteConfigInput Context) :
    Prop where
  path : Property.Drops Eq u.path v.path
  method : Property.Drops Eq u.method v.method
  paramNames : Property.Drops Eq u.paramNames v.paramNames
  maxAge : Property.Drops Eq u.maxAge v.maxAge
  hitpass : Property.Drops Eq u.hitpass v.hitpass
  keys : Property.Drops KeysOption.Drops u.keys v.keys

inductive RouteInput.Drops : RouteInput Context -> RouteInput Context -> Prop where
  | path (path : JsString) :
      RouteInput.Drops (RouteInput.path path) (RouteInput.path path)
  | options {u v : CacheRouteConfigInput Context} : u.Drops v ->
      RouteInput.Drops (RouteInput.options u) (RouteInput.options v)

structure CacheContentTypeConfigInput.Drops
    (u v : CacheContentTypeConfigInput Context) : Prop where
  contentType : Property.Drops Eq u.contentType v.contentType
  singleType : Property.Drops Eq u.singleType v.singleType
  injectDefaultRoutes :
    Property.Drops Eq u.injectDefaultRoutes v.injectDefaultRoutes
  maxAge : Property.Drops Eq u.maxAge v.maxAge
  hitpass : Property.Drops Eq u.hitpass v.hitpass
  keys : Property.Drops KeysOption.Drops u.keys v.keys
  routes : Property.Drops (List.Forall₂ RouteInput.Drops) u.routes v.routes
  relatedContentTypeUid :
    Property.Drops Eq u.relatedContentTypeUid v.relatedContentTypeUid
  plugin : Property.Drops Eq u.plugin v.plugin

inductive ContentTypeInput.Drops :
    ContentTypeInput Context -> ContentTypeInput Context -> Prop where
  | uid (uid : JsString) :
      ContentTypeInput.Drops (ContentTypeInput.uid uid) (ContentTypeInput.uid uid)
  | options {u v : CacheContentTypeConfigInput Context} : u.Drops v ->
      ContentTypeInput.Drops (ContentTypeInput.options u)
        (ContentTypeInput.options v)

structure CachePluginStrategyInput.Drops
    (u v : CachePluginStrategyInput Context) : Prop where
  debug : Property.Drops Eq u.debug v.debug
  enableEtag : Property.Drops Eq u.enableEtag v.enableEtag
  enableXCacheHeaders :
    Property.Drops Eq u.enableXCacheHeaders v.enableXCacheHeaders
  enableAdminCTBMiddleware :
    Property.Drops Eq u.enableAdminCTBMiddleware v.enableAdminCTBMiddleware
  enableDocumentServiceMiddleware :
    Property.Drops Eq u.enableDocumentServiceMiddleware
      v.enableDocumentServiceMiddleware
  enableContentApiPurge :
    Property.Drops Eq u.enableContentApiPurge v.enableContentApiPurge
  resetOnStartup : Property.Drops Eq u.resetOnStartup v.resetOnStartup
  clearRelatedCache : Property.Drops Eq u.clearRelatedCache v.clearRelatedCache
  maxAge : Property.Drops Eq u.maxAge v.maxAge
  keysPrefix : Property.Drops Eq u.keysPrefix v.keysPrefix
  contentTypes : Property.Drops (List.Forall₂ ContentTypeInput.Drops)
    u.contentTypes v.contentTypes
  keys : Property.Drops KeysOption.Drops u.keys v.keys
  cacheControl :
    Property.Drops CacheControlOption.Drops u.cacheControl v.cacheControl
  hitpass : Property.Drops Eq u.hitpass v.hitpass

/-!
## Keys and `Cache-Control`
-/

theorem KeysOption.Drops.new_eq {u v : KeysOption} (h : u.Drops v) :
    CacheKeysConfig.new (some u) = CacheKeysConfig.new (some v) := by
  cases h with
  | config keys => rfl
  | options h =>
      simp only [CacheKeysConfig.new, KeysOption.properties,
        h.useHeaders.getD_eq, h.useQueryParams.getD_eq, h.useAuth.getD_eq]

theorem newKeys_or_eq {keys keys' : Property KeysOption}
    {rest rest' : Option KeysOption}
    (hkeys : Property.Drops KeysOption.Drops keys keys')
    (hrest : CacheKeysConfig.new rest = CacheKeysConfig.new rest') :
    CacheKeysConfig.new (keys.get?.or rest) =
      CacheKeysConfig.new (keys'.get?.or rest') := by
  have hleft : CacheKeysConfig.new (keys.get?.or rest) =
      CacheKeysConfig.new (keys'.get?.or rest) :=
    Property.Drops.congr_get? (f := fun o => CacheKeysConfig.new (o.or rest)) hkeys
      fun _ _ h => h.new_eq
  rw [hleft]
  cases keys'.get? with
  | none => exact hrest
  | some keys => rfl

theorem CacheControlOption.Drops.cacheControlOf_eq {u v : CacheControlOption}
    (h : u.Drops v) : cacheControlOf (some u) = cacheControlOf (some v) := by
  cases h with
  | config cacheControl => rfl
  | options h =>
      simp only [cacheControlOf, CacheControlConfig.new, h.enabled.getD_eq,
        h.maxAge.getD_eq, h.scope.getD_eq, h.staleWhileRevalidate.getD_eq]

theorem CacheControlOption.Drops.advertisesPublic_eq {u v : CacheControlOption}
    (h : u.Drops v) : advertisesPublic (some u) = advertisesPublic (some v) := by
  cases h with
  | config cacheControl => rfl
  | options h =>
      simp only [advertisesPublic, h.enabled.getD_eq, h.scope.get?_eq]

/-!
## Listed routes
-/

structure Inherited.Same (inherited inherited' : Inherited Context) : Prop where
  strategyHitpass : inherited.strategyHitpass = inherited'.strategyHitpass
  contentTypeHitpass :
    inherited.contentTypeHitpass = inherited'.contentTypeHitpass
  contentTypeKeys : CacheKeysConfig.new inherited.contentTypeKeys =
    CacheKeysConfig.new inherited'.contentTypeKeys
  contentTypeMaxAge : inherited.contentTypeMaxAge = inherited'.contentTypeMaxAge

section Routes

variable {inherited inherited' : Inherited Context}

theorem Inherited.Same.inheritedHitpass_eq (h : inherited.Same inherited')
    (keys : CacheKeysConfig) :
    inheritedHitpass inherited keys = inheritedHitpass inherited' keys := by
  rw [inheritedHitpass, inheritedHitpass, h.strategyHitpass, h.contentTypeHitpass]

theorem RouteInput.Drops.listedRoute_eq (hsame : inherited.Same inherited')
    {given given' : RouteInput Context} (h : given.Drops given') :
    listedRoute inherited given = listedRoute inherited' given' := by
  cases h with
  | path path =>
      rw [listedRoute, listedRoute]
      simp only [hsame.contentTypeKeys, hsame.contentTypeMaxAge,
        hsame.inheritedHitpass_eq]
  | options h =>
      rename_i u v
      have hkeys : (RouteInput.options u).keysUnder inherited.contentTypeKeys =
          (RouteInput.options v).keysUnder inherited'.contentTypeKeys :=
        newKeys_or_eq h.keys hsame.contentTypeKeys
      cases hpath : v.path.get? with
      | none =>
          rw [listedRoute_of_no_path inherited (h.path.get?_eq.trans hpath),
            listedRoute_of_no_path inherited' hpath]
      | some path =>
          rw [listedRoute_of_path inherited (h.path.get?_eq.trans hpath),
            listedRoute_of_path inherited' hpath]
          simp only [h.path.definedOnly_eq, h.method.definedOnly_eq,
            h.paramNames.definedOnly_eq, h.maxAge.definedOnly_eq,
            h.hitpass.definedOnly_eq, hkeys, hsame.contentTypeMaxAge,
            hsame.inheritedHitpass_eq]

end Routes

/-!
## Content types
-/

section ContentTypes

variable {userOptions userOptions' : CachePluginStrategyInput Context}

theorem CacheContentTypeConfigInput.Drops.inherited_same
    {entry entry' : CacheContentTypeConfigInput Context}
    (h : entry.Drops entry') (hoptions : userOptions.Drops userOptions') :
    (entry.inherited userOptions).Same (entry'.inherited userOptions') := by
  constructor
  · exact hoptions.hitpass.get?_eq
  · exact congrArg Property.get? h.hitpass.definedOnly_eq
  · show CacheKeysConfig.new (entry.keys.definedOnly.get?.or _) =
      CacheKeysConfig.new (entry'.keys.definedOnly.get?.or _)
    rw [Property.get?_definedOnly, Property.get?_definedOnly]
    exact newKeys_or_eq h.keys
      (hoptions.keys.congr_get? fun _ _ h => h.new_eq)
  · show entry.maxAge.definedOnly.get?.or _ = entry'.maxAge.definedOnly.get?.or _
    rw [h.maxAge.definedOnly_eq, hoptions.maxAge.get?_eq]

theorem CacheContentTypeConfigInput.Drops.routes_eq
    {entry entry' : CacheContentTypeConfigInput Context}
    (h : entry.Drops entry') (hoptions : userOptions.Drops userOptions') :
    (entry.definedOnly.routes.getD []).mapM
        (listedRoute (entry.inherited userOptions)) =
      (entry'.definedOnly.routes.getD []).mapM
        (listedRoute (entry'.inherited userOptions')) := by
  apply mapM_eq_mapM
  have hroutes : List.Forall₂ RouteInput.Drops (entry.routes.getD [])
      (entry'.routes.getD []) := h.routes.getD_rel List.Forall₂.nil
  rw [CacheContentTypeConfigInput.definedOnly,
    CacheContentTypeConfigInput.definedOnly, Property.getD,
    Property.getD, Property.get?_definedOnly, Property.get?_definedOnly]
  exact hroutes.imp fun _ _ hdrops =>
    hdrops.listedRoute_eq (h.inherited_same hoptions)

theorem ContentTypeInput.Drops.draftOf_eq {entry entry' : ContentTypeInput Context}
    (h : entry.Drops entry') (hoptions : userOptions.Drops userOptions') :
    draftOf userOptions entry = draftOf userOptions' entry' := by
  cases h with
  | uid uid =>
      have hkeys : CacheKeysConfig.new userOptions.keys.get? =
          CacheKeysConfig.new userOptions'.keys.get? :=
        hoptions.keys.congr_get? fun _ _ h => h.new_eq
      rw [draftOf, draftOf, hoptions.maxAge.get?_eq, hoptions.hitpass.get?_eq,
        hkeys]
  | options h =>
      rename_i u v
      have hroutes := h.routes_eq hoptions
      have hkeys := (h.inherited_same hoptions).contentTypeKeys
      rw [draftOf_options, draftOf_options, hroutes]
      simp only [h.contentType.definedOnly_eq, h.singleType.definedOnly_eq,
        h.injectDefaultRoutes.definedOnly_eq, h.maxAge.definedOnly_eq,
        h.hitpass.definedOnly_eq, h.relatedContentTypeUid.definedOnly_eq,
        h.plugin.definedOnly_eq, hoptions.maxAge.get?_eq,
        hoptions.hitpass.get?_eq, hkeys]

end ContentTypes

/-!
## Strategies
-/

section Strategies

variable {userOptions userOptions' : CachePluginStrategyInput Context}

theorem CachePluginStrategyInput.Drops.new_eq
    (h : userOptions.Drops userOptions')
    (contentTypes : List (CacheContentTypeConfig Context)) :
    CachePluginStrategy.new userOptions contentTypes =
      CachePluginStrategy.new userOptions' contentTypes := by
  have hkeys : CacheKeysConfig.new userOptions.keys.get? =
      CacheKeysConfig.new userOptions'.keys.get? :=
    h.keys.congr_get? fun _ _ h => h.new_eq
  have hcacheControl : cacheControlOf userOptions.cacheControl.get? =
      cacheControlOf userOptions'.cacheControl.get? :=
    h.cacheControl.congr_get? fun _ _ h => h.cacheControlOf_eq
  simp only [CachePluginStrategy.new, h.debug.getD_eq, h.enableEtag.getD_eq,
    h.enableXCacheHeaders.getD_eq, h.enableAdminCTBMiddleware.getD_eq,
    h.enableDocumentServiceMiddleware.getD_eq, h.enableContentApiPurge.getD_eq,
    h.resetOnStartup.getD_eq, h.clearRelatedCache.getD_eq, h.maxAge.getD_eq,
    h.keysPrefix.getD_eq, hkeys, hcacheControl]

/-- An undefined option is an omitted option. -/
theorem resolveUserStrategy_drops (strapi : Strapi)
    (h : userOptions.Drops userOptions') :
    resolveUserStrategy strapi userOptions =
      resolveUserStrategy strapi userOptions' := by
  have hcontentTypes : List.Forall₂ ContentTypeInput.Drops
      (userOptions.contentTypes.getD []) (userOptions'.contentTypes.getD []) :=
    h.contentTypes.getD_rel List.Forall₂.nil
  have hdrafts : (userOptions.contentTypes.getD []).mapM (draftOf userOptions) =
      (userOptions'.contentTypes.getD []).mapM (draftOf userOptions') :=
    mapM_eq_mapM (hcontentTypes.imp fun _ _ hdrops => hdrops.draftOf_eq h)
  have hpublic : advertisesPublic userOptions.cacheControl.get? =
      advertisesPublic userOptions'.cacheControl.get? :=
    h.cacheControl.congr_get? fun _ _ h => h.advertisesPublic_eq
  rw [resolveUserStrategy, resolveUserStrategy, hdrafts, hpublic]
  simp only [h.new_eq]

/-!
## Example
-/

section Unset

-- what options are that were read from the environment
variable (unset : forall {value : Type}, Property value)

def keysWith : CacheKeysConfigInput where
  useHeaders := unset
  useQueryParams := unset
  useAuth := Property.value (UseAuth.bool true)

def routeWith : CacheRouteConfigInput Bool where
  path := Property.value "/api/pages".toList
  method := unset
  paramNames := Property.absent
  maxAge := unset
  hitpass := unset
  keys := Property.value (KeysOption.options (keysWith unset))

def entryWith : CacheContentTypeConfigInput Bool :=
  { (noEntryOptions : CacheContentTypeConfigInput Bool) with
    contentType := Property.value pageUid
    injectDefaultRoutes := Property.value false
    maxAge := unset
    hitpass := unset
    routes := Property.value [RouteInput.options (routeWith unset)] }

def pagesWith : CachePluginStrategyInput Bool :=
  { (noStrategyOptions : CachePluginStrategyInput Bool) with
    maxAge := unset
    contentTypes := Property.value [ContentTypeInput.options (entryWith unset)]
    hitpass := Property.value bypassesCredentials }

end Unset

theorem routeWith_drops :
    (routeWith Property.undefined).Drops (routeWith Property.absent) where
  path := Property.Drops.same _
  method := Property.Drops.dropped
  paramNames := Property.Drops.same _
  maxAge := Property.Drops.dropped
  hitpass := Property.Drops.dropped
  keys := Property.Drops.value (KeysOption.Drops.options
    { useHeaders := Property.Drops.dropped
      useQueryParams := Property.Drops.dropped
      useAuth := Property.Drops.same _ })

theorem entryWith_drops :
    (entryWith Property.undefined).Drops (entryWith Property.absent) where
  contentType := Property.Drops.same _
  singleType := Property.Drops.same _
  injectDefaultRoutes := Property.Drops.same _
  maxAge := Property.Drops.dropped
  hitpass := Property.Drops.dropped
  keys := Property.Drops.absent
  routes := Property.Drops.value
    (List.Forall₂.cons (RouteInput.Drops.options routeWith_drops)
      List.Forall₂.nil)
  relatedContentTypeUid := Property.Drops.same _
  plugin := Property.Drops.same _

theorem pagesWith_drops :
    (pagesWith Property.undefined).Drops (pagesWith Property.absent) where
  debug := Property.Drops.same _
  enableEtag := Property.Drops.same _
  enableXCacheHeaders := Property.Drops.same _
  enableAdminCTBMiddleware := Property.Drops.same _
  enableDocumentServiceMiddleware := Property.Drops.same _
  enableContentApiPurge := Property.Drops.same _
  resetOnStartup := Property.Drops.same _
  clearRelatedCache := Property.Drops.same _
  maxAge := Property.Drops.dropped
  keysPrefix := Property.Drops.same _
  contentTypes := Property.Drops.value
    (List.Forall₂.cons (ContentTypeInput.Drops.options entryWith_drops)
      List.Forall₂.nil)
  keys := Property.Drops.absent
  cacheControl := Property.Drops.absent
  hitpass := Property.Drops.same _

theorem resolveUserStrategy_drops_pages :
    resolveUserStrategy (oneContentType pageUid pageType)
        (pagesWith Property.undefined) =
      resolveUserStrategy (oneContentType pageUid pageType)
        (pagesWith Property.absent) :=
  resolveUserStrategy_drops (oneContentType pageUid pageType) pagesWith_drops

end Strategies

end Strategy
end RestCache
