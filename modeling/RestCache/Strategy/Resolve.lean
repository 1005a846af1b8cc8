import RestCache.Config.MixedPattern
import RestCache.Config.RelatedModels
import RestCache.Strategy.Config

/-!
# Resolving the user's strategy

The routes listed under a content type and the default routes of its API, each
with what it inherits, and the warnings that resolving logs.
-/

namespace RestCache
namespace Strategy

open Foundation

variable {Context : Type _}

/-!
## Strapi
-/

inductive Kind where
  | collectionType
  | singleType
deriving DecidableEq

structure ContentType where
  kind : Kind
  plugin : Option JsString
  singularName : JsString
  pluralName : JsString

/-- A route of an API; other methods than these are `none`. -/
structure ApiRoute where
  method : Option HttpMethod
  path : JsString

structure Strapi where
  contentType : JsString -> Option ContentType
  apis : JsString -> Option (List (List ApiRoute))
  apiPrefix : JsString
  schemas : Config.Schemas

def printed (text : Option JsString) : JsString :=
  text.getD "undefined".toList

inductive ResolveError where
  | typeError (message : JsString)
  | error (message : JsString)
deriving DecidableEq

def ResolveError.undefinedRead (property : JsString) : ResolveError :=
  ResolveError.typeError
    ("Cannot read properties of undefined (reading '".toList ++ property ++
      "')".toList)

def ResolveError.contentTypeNotFound (uid : JsString) : ResolveError :=
  ResolveError.error
    ("Unable to resolve rest-cache options: contentType uid \"".toList ++ uid ++
      "\" not found".toList)

def ResolveError.apiNotFound (apiName uid : JsString) : ResolveError :=
  ResolveError.error
    ("Unable to resolve rest-cache options: no API \"".toList ++ apiName ++
      "\" found for contentType \"".toList ++ uid ++ "\". ".toList ++
      "Set \"injectDefaultRoutes: false\" for this contentType if it has no ".toList ++
      "default routes.".toList)

def routeParams : JsString -> List JsString
  | '/' :: ':' :: rest =>
      let name := rest.takeWhile (fun c => c ≠ '/')
      (if name.all (fun c => !RegExpSource.isLineTerminator c) then [name]
        else []) ++ routeParams rest
  | _ :: rest => routeParams rest
  | [] => []

def afterColons : JsString -> Option JsString
  | ':' :: ':' :: rest => some rest
  | _ :: rest => afterColons rest
  | [] => none

def untilColons : JsString -> JsString
  | ':' :: ':' :: _ => []
  | c :: rest => c :: untilColons rest
  | [] => []

def getApiNameFromUid (uid : JsString) : Option JsString :=
  (afterColons uid).map fun rest =>
    (untilColons rest).takeWhile (fun c => c ≠ '.')

/-!
## Listed routes
-/

def CacheRouteConfigInput.definedOnly (options : CacheRouteConfigInput Context) :
    CacheRouteConfigInput Context where
  path := options.path.definedOnly
  method := options.method.definedOnly
  paramNames := options.paramNames.definedOnly
  maxAge := options.maxAge.definedOnly
  hitpass := options.hitpass.definedOnly
  keys := options.keys.definedOnly

def CacheContentTypeConfigInput.definedOnly
    (options : CacheContentTypeConfigInput Context) :
    CacheContentTypeConfigInput Context where
  contentType := options.contentType.definedOnly
  singleType := options.singleType.definedOnly
  injectDefaultRoutes := options.injectDefaultRoutes.definedOnly
  maxAge := options.maxAge.definedOnly
  hitpass := options.hitpass.definedOnly
  keys := options.keys.definedOnly
  routes := options.routes.definedOnly
  relatedContentTypeUid := options.relatedContentTypeUid.definedOnly
  plugin := options.plugin.definedOnly

/-- What the listed routes of a content type inherit. -/
structure Inherited (Context : Type _) where
  strategyHitpass : Option (Hitpass Context)
  contentTypeHitpass : Option (Hitpass Context)
  contentTypeKeys : Option KeysOption
  contentTypeMaxAge : Option Nat

def inheritedHitpass (inherited : Inherited Context) (keys : CacheKeysConfig) :
    Property (Hitpass Context) :=
  Property.ofOption
    (listedRouteHitpass inherited.strategyHitpass inherited.contentTypeHitpass
      keys.useAuth)

def listedRoute (inherited : Inherited Context) :
    RouteInput Context -> Except ResolveError (CacheRouteConfig Context)
  | RouteInput.path value =>
      let keys := CacheKeysConfig.new inherited.contentTypeKeys
      Except.ok (CacheRouteConfig.new
        { path := Property.value value
          method := Property.value HttpMethod.GET
          keys := Property.value (KeysOption.config keys)
          maxAge := Property.ofOption inherited.contentTypeMaxAge
          hitpass := inheritedHitpass inherited keys
          paramNames := Property.value (Config.routeParamNames value) })
  | RouteInput.options value =>
      let route := value.definedOnly
      let keys :=
        match route.keys.get? with
        | some keys => CacheKeysConfig.new (some keys)
        | none => CacheKeysConfig.new inherited.contentTypeKeys
      match route.path.get? with
      | none => Except.error (ResolveError.undefinedRead "match".toList)
      | some path =>
          Except.ok (CacheRouteConfig.new
            { path := route.path
              method := route.method
              keys := Property.value (KeysOption.config keys)
              maxAge := route.maxAge.spreadOver
                (Property.ofOption inherited.contentTypeMaxAge)
              hitpass := route.hitpass.spreadOver (inheritedHitpass inherited keys)
              paramNames := route.paramNames.spreadOver
                (Property.value (Config.routeParamNames path)) })

/-!
## Content types
-/

structure DraftContentTypeConfig (Context : Type _) where
  contentType : Option JsString
  singleType : Property Bool
  injectDefaultRoutes : Property Bool
  maxAge : Property Nat
  hitpass : Property (Hitpass Context)
  keys : CacheKeysConfig
  routes : List (CacheRouteConfig Context)
  relatedContentTypeUid : Property (List JsString)
  plugin : Property JsString

def inheritedBy (userOptions : CachePluginStrategyInput Context)
    (contentTypeOption : CacheContentTypeConfigInput Context) :
    Inherited Context where
  strategyHitpass := userOptions.hitpass.get?
  contentTypeHitpass := contentTypeOption.hitpass.get?
  contentTypeKeys := contentTypeOption.keys.get?.or userOptions.keys.get?
  contentTypeMaxAge := contentTypeOption.maxAge.get?.or userOptions.maxAge.get?

/-- The first loop, for one entry. -/
def draftOf (userOptions : CachePluginStrategyInput Context) :
    ContentTypeInput Context ->
      Except ResolveError (DraftContentTypeConfig Context)
  | ContentTypeInput.uid contentType =>
      Except.ok
        { contentType := some contentType
          singleType := Property.value false
          injectDefaultRoutes := Property.value true
          maxAge := Property.ofOption userOptions.maxAge.get?
          hitpass := Property.ofOption userOptions.hitpass.get?
          keys := CacheKeysConfig.new userOptions.keys.get?
          routes := []
          relatedContentTypeUid := Property.absent
          plugin := Property.absent }
  | ContentTypeInput.options entry =>
      let contentTypeOption := entry.definedOnly
      let inherited := inheritedBy userOptions contentTypeOption
      ((contentTypeOption.routes.getD []).mapM (listedRoute inherited)).map
        fun routes =>
          { contentType := contentTypeOption.contentType.get?
            singleType :=
              contentTypeOption.singleType.spreadOver (Property.value false)
            injectDefaultRoutes :=
              contentTypeOption.injectDefaultRoutes.spreadOver (Property.value true)
            maxAge := contentTypeOption.maxAge.spreadOver
              (Property.ofOption userOptions.maxAge.get?)
            hitpass := contentTypeOption.hitpass.spreadOver
              (Property.ofOption userOptions.hitpass.get?)
            keys := CacheKeysConfig.new inherited.contentTypeKeys
            routes
            relatedContentTypeUid := contentTypeOption.relatedContentTypeUid
            plugin := contentTypeOption.plugin }

/-!
## Default routes
-/

def injectedRoute (strapi : Strapi) (cacheConfig : DraftContentTypeConfig Context)
    (path : JsString) (method : HttpMethod) : CacheRouteConfig Context :=
  CacheRouteConfig.new
    { path := Property.value (strapi.apiPrefix ++ path)
      paramNames := Property.value (routeParams path)
      method := Property.value method
      keys := Property.value (KeysOption.config
        (CacheKeysConfig.new (some (KeysOption.config cacheConfig.keys))))
      maxAge := cacheConfig.maxAge
      hitpass := cacheConfig.hitpass }

def injectedIf (strapi : Strapi) (cacheConfig : DraftContentTypeConfig Context)
    (methods : List HttpMethod) (path : JsString) (route : ApiRoute) :
    List (CacheRouteConfig Context) :=
  match route.method with
  | none => []
  | some method =>
      if method ∈ methods ∧ route.path = path then
        [injectedRoute strapi cacheConfig route.path method]
      else
        []

def injectedFor (strapi : Strapi) (cacheConfig : DraftContentTypeConfig Context)
    (contentType : ContentType) (route : ApiRoute) :
    List (CacheRouteConfig Context) :=
  if contentType.kind = Kind.singleType then
    injectedIf strapi cacheConfig [HttpMethod.GET, HttpMethod.PUT,
      HttpMethod.DELETE] ('/' :: contentType.singularName) route
  else
    injectedIf strapi cacheConfig [HttpMethod.GET, HttpMethod.POST]
        ('/' :: contentType.pluralName) route ++
      injectedIf strapi cacheConfig [HttpMethod.GET, HttpMethod.PUT,
        HttpMethod.DELETE] ('/' :: contentType.pluralName ++ "/:id".toList) route

def describedBy (strapi : Strapi) (contentType : ContentType)
    (cacheConfig : DraftContentTypeConfig Context) :
    DraftContentTypeConfig Context :=
  { cacheConfig with
    singleType := Property.value (contentType.kind = Kind.singleType)
    plugin := Property.ofOption contentType.plugin
    relatedContentTypeUid := Property.value
      (Config.getRelatedModelsUid false strapi.schemas
        (cacheConfig.contentType.getD [])) }

/-- The second loop, for one content type. -/
def completed (strapi : Strapi) (cacheConfig : DraftContentTypeConfig Context) :
    Except ResolveError (DraftContentTypeConfig Context) :=
  match strapi.contentType (printed cacheConfig.contentType) with
  | none =>
      Except.error
        (ResolveError.contentTypeNotFound (printed cacheConfig.contentType))
  | some contentType =>
      let cacheConfig := describedBy strapi contentType cacheConfig
      if cacheConfig.injectDefaultRoutes.getD false = false then
        Except.ok cacheConfig
      else if contentType.plugin.any (fun plugin => plugin ≠ []) then
        Except.ok cacheConfig
      else
        match cacheConfig.contentType with
        | none => Except.error (ResolveError.undefinedRead "split".toList)
        | some uid =>
            let apiName := printed (getApiNameFromUid uid)
            match strapi.apis apiName with
            | none => Except.error (ResolveError.apiNotFound apiName uid)
            | some routes =>
                Except.ok
                  { cacheConfig with
                    routes := cacheConfig.routes ++ routes.flatten.flatMap
                      (injectedFor strapi cacheConfig contentType) }

def CacheContentTypeConfig.new (options : DraftContentTypeConfig Context) :
    CacheContentTypeConfig Context where
  singleType := options.singleType.getD false
  injectDefaultRoutes := options.injectDefaultRoutes.getD true
  maxAge := options.maxAge.getD 3600000
  hitpass := options.hitpass.getD (Hitpass.bool false)
  keys := options.keys
  plugin := options.plugin.get?
  routes := options.routes
  contentType := options.contentType
  relatedContentTypeUid := options.relatedContentTypeUid.getD []

/-!
## Warnings
-/

def isUnkeyedAuthenticatedRoute (route : CacheRouteConfig Context) : Bool :=
  route.method = HttpMethod.GET &&
    (match route.hitpass with
      | Hitpass.bool false => true
      | _ => false) &&
    !route.keys.useAuth.truthy

def unkeyedAuthenticatedRoutes (routes : List (CacheRouteConfig Context)) :
    List JsString :=
  (routes.filter isUnkeyedAuthenticatedRoute).map CacheRouteConfig.path

inductive Warning where
  | unkeyed (contentType : JsString) (paths : List JsString)
  | keyedPerCaller (contentType : JsString) (routes : Nat)
deriving DecidableEq

def unkeyedWarning (cacheConfig : DraftContentTypeConfig Context) :
    List Warning :=
  let unkeyedPaths := unkeyedAuthenticatedRoutes cacheConfig.routes
  if unkeyedPaths = [] then []
  else [Warning.unkeyed (printed cacheConfig.contentType) unkeyedPaths]

def keyedWarning (cacheConfig : DraftContentTypeConfig Context) :
    List Warning :=
  let keyedPerCaller :=
    cacheConfig.routes.filter fun route => route.keys.useAuth.truthy
  if keyedPerCaller = [] then []
  else
    [Warning.keyedPerCaller (printed cacheConfig.contentType)
      keyedPerCaller.length]

/-- Only options are looked at, not their defaults. -/
def advertisesPublic : Option CacheControlOption -> Bool
  | none => false
  | some (CacheControlOption.config cacheControl) =>
      cacheControl.enabled && cacheControl.scope = Scope.publicScope
  | some (CacheControlOption.options given) =>
      given.enabled.getD false && given.scope.get? = some Scope.publicScope

/-!
## The strategy
-/

structure Resolved (Context : Type _) where
  strategy : CachePluginStrategy Context
  warnings : List Warning

def CachePluginStrategy.new (userOptions : CachePluginStrategyInput Context)
    (contentTypes : List (CacheContentTypeConfig Context)) :
    CachePluginStrategy Context where
  debug := userOptions.debug.getD false
  enableEtag := userOptions.enableEtag.getD false
  enableXCacheHeaders := userOptions.enableXCacheHeaders.getD false
  enableAdminCTBMiddleware := userOptions.enableAdminCTBMiddleware.getD true
  enableDocumentServiceMiddleware :=
    userOptions.enableDocumentServiceMiddleware.getD true
  enableContentApiPurge := userOptions.enableContentApiPurge.getD false
  resetOnStartup := userOptions.resetOnStartup.getD false
  clearRelatedCache := userOptions.clearRelatedCache.getD true
  maxAge := userOptions.maxAge.getD 3600000
  keysPrefix := userOptions.keysPrefix.getD []
  contentTypes
  keys := CacheKeysConfig.new userOptions.keys.get?
  cacheControl := cacheControlOf userOptions.cacheControl.get?

def resolveUserStrategy (strapi : Strapi)
    (userOptions : CachePluginStrategyInput Context) :
    Except ResolveError (Resolved Context) :=
  ((userOptions.contentTypes.getD []).mapM (draftOf userOptions)).bind
    fun drafts =>
      (drafts.mapM (completed strapi)).map fun cacheConfigs =>
        { strategy := CachePluginStrategy.new userOptions
            (cacheConfigs.map CacheContentTypeConfig.new)
          warnings := cacheConfigs.flatMap unkeyedWarning ++
            if advertisesPublic userOptions.cacheControl.get? then
              cacheConfigs.flatMap keyedWarning
            else
              [] }

end Strategy
end RestCache
