import RestCache.Foundation.OptionalProperty
import RestCache.Keys.QueryParamsKey
import RestCache.Strategy.Hitpass

/-!
# Options and resolved configurations

What a user may write in the plugin's configuration, and the classes that the
plugin runs on, each with its constructor.
-/

namespace RestCache
namespace Strategy

open Foundation
open Keys

variable (Context : Type _)

inductive HttpMethod where
  | GET
  | POST
  | PUT
  | PATCH
  | DELETE
deriving DecidableEq

inductive Scope where
  | publicScope
  | privateScope
deriving DecidableEq

inductive MaxAge where
  | none
  | config
  | number (ms : Nat)
deriving DecidableEq

/-!
## Resolved classes
-/

structure CacheKeysConfig where
  useHeaders : List JsString
  useQueryParams : UseQueryParams
  useAuth : UseAuth
deriving DecidableEq

structure CacheControlConfig where
  enabled : Bool
  maxAge : MaxAge
  scope : Scope
  staleWhileRevalidate : Option Nat
deriving DecidableEq

structure CacheRouteConfig where
  maxAge : Nat
  path : JsString
  method : HttpMethod
  paramNames : List JsString
  keys : CacheKeysConfig
  hitpass : Hitpass Context

structure CacheContentTypeConfig where
  singleType : Bool
  injectDefaultRoutes : Bool
  maxAge : Nat
  hitpass : Hitpass Context
  keys : CacheKeysConfig
  plugin : Option JsString
  routes : List (CacheRouteConfig Context)
  contentType : Option JsString
  relatedContentTypeUid : List JsString

structure CachePluginStrategy where
  debug : Bool
  enableEtag : Bool
  enableXCacheHeaders : Bool
  enableAdminCTBMiddleware : Bool
  enableDocumentServiceMiddleware : Bool
  enableContentApiPurge : Bool
  resetOnStartup : Bool
  clearRelatedCache : Bool
  maxAge : Nat
  keysPrefix : JsString
  contentTypes : List (CacheContentTypeConfig Context)
  keys : CacheKeysConfig
  cacheControl : CacheControlConfig

/-!
## Options
-/

structure CacheKeysConfigInput where
  useHeaders : Property (List JsString)
  useQueryParams : Property UseQueryParams
  useAuth : Property UseAuth

/-- Options, or an instance of the class. -/
inductive KeysOption where
  | config (keys : CacheKeysConfig)
  | options (options : CacheKeysConfigInput)

/-- `staleWhileRevalidate` may be null. -/
structure CacheControlConfigInput where
  enabled : Property Bool
  maxAge : Property MaxAge
  scope : Property Scope
  staleWhileRevalidate : Property (Option Nat)

inductive CacheControlOption where
  | config (cacheControl : CacheControlConfig)
  | options (options : CacheControlConfigInput)

structure CacheRouteConfigInput where
  path : Property JsString
  method : Property HttpMethod
  paramNames : Property (List JsString)
  maxAge : Property Nat
  hitpass : Property (Hitpass Context)
  keys : Property KeysOption

inductive RouteInput where
  | path (path : JsString)
  | options (options : CacheRouteConfigInput Context)

structure CacheContentTypeConfigInput where
  contentType : Property JsString
  singleType : Property Bool
  injectDefaultRoutes : Property Bool
  maxAge : Property Nat
  hitpass : Property (Hitpass Context)
  keys : Property KeysOption
  routes : Property (List (RouteInput Context))
  relatedContentTypeUid : Property (List JsString)
  plugin : Property JsString

inductive ContentTypeInput where
  | uid (uid : JsString)
  | options (options : CacheContentTypeConfigInput Context)

structure CachePluginStrategyInput where
  debug : Property Bool
  enableEtag : Property Bool
  enableXCacheHeaders : Property Bool
  enableAdminCTBMiddleware : Property Bool
  enableDocumentServiceMiddleware : Property Bool
  enableContentApiPurge : Property Bool
  resetOnStartup : Property Bool
  clearRelatedCache : Property Bool
  maxAge : Property Nat
  keysPrefix : Property JsString
  contentTypes : Property (List (ContentTypeInput Context))
  keys : Property KeysOption
  cacheControl : Property CacheControlOption
  hitpass : Property (Hitpass Context)

variable {Context : Type _}

/-!
## Constructors
-/

def KeysOption.properties : KeysOption -> CacheKeysConfigInput
  | KeysOption.config keys =>
      { useHeaders := Property.value keys.useHeaders
        useQueryParams := Property.value keys.useQueryParams
        useAuth := Property.value keys.useAuth }
  | KeysOption.options given => given

def CacheKeysConfig.new (options : Option KeysOption) : CacheKeysConfig :=
  match options with
  | none =>
      { useHeaders := []
        useQueryParams := UseQueryParams.bool true
        useAuth := UseAuth.bool false }
  | some options =>
      let options := options.properties
      { useHeaders := sortNames (options.useHeaders.getD [])
        useQueryParams :=
          options.useQueryParams.getD (UseQueryParams.bool true)
        useAuth := options.useAuth.getD (UseAuth.bool false) }

def keysOf : Option KeysOption -> CacheKeysConfig
  | some (KeysOption.config keys) => keys
  | options => CacheKeysConfig.new options

def CacheControlConfig.new (options : Option CacheControlConfigInput) :
    CacheControlConfig :=
  match options with
  | none =>
      { enabled := false
        maxAge := MaxAge.config
        scope := Scope.privateScope
        staleWhileRevalidate := none }
  | some options =>
      { enabled := options.enabled.getD false
        maxAge := options.maxAge.getD MaxAge.config
        scope := options.scope.getD Scope.privateScope
        staleWhileRevalidate := options.staleWhileRevalidate.getD none }

def cacheControlOf : Option CacheControlOption -> CacheControlConfig
  | some (CacheControlOption.config cacheControl) => cacheControl
  | some (CacheControlOption.options options) =>
      CacheControlConfig.new (some options)
  | none => CacheControlConfig.new none

def CacheRouteConfig.new (options : CacheRouteConfigInput Context) :
    CacheRouteConfig Context where
  maxAge := options.maxAge.getD 3600000
  path := options.path.getD []
  method := options.method.getD HttpMethod.GET
  paramNames := options.paramNames.getD []
  keys := keysOf options.keys.get?
  hitpass := options.hitpass.getD (Hitpass.bool false)

end Strategy
end RestCache
