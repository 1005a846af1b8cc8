import RestCache.Boot.RouteTable
import RestCache.Store.PrefixIsolation

/-!
# The dashboard

The summary counts what the store lists, content type by content type, and the
dashboard offers to purge each of them.  Both go by the same expressions, so a
purge brings the counts of what it reaches to zero.
-/

namespace RestCache
namespace Store

open Foundation
open RegExpSource (Unreadable)
open Config (ClearError RelatedStrategy RouteParams getRouteRegExp)
open Boot (routeSeen contentTypeSeen strategySeen)
open Strategy (HttpMethod CacheRouteConfig CacheContentTypeConfig
  CachePluginStrategy Hitpass UseAuth unkeyedAuthenticatedRoutes printed)

variable {Context : Type _}

/-!
## The resolved strategy as the services read it
-/

section Config

variable (strategy : CachePluginStrategy Context)

def getUids : List (Option JsString) :=
  strategy.contentTypes.map CacheContentTypeConfig.contentType

def getConf (uid : Option JsString) : Option (CacheContentTypeConfig Context) :=
  strategy.contentTypes.find? (fun cacheConf => cacheConf.contentType = uid)

def isCached (uid : Option JsString) : Bool :=
  (getConf strategy uid).isSome

def getRelatedCachedUid (uid : Option JsString) : List JsString :=
  match getConf strategy uid with
  | none => []
  | some cacheConf =>
      cacheConf.relatedContentTypeUid.filter fun related =>
        (getUids strategy).any (fun cached => cached = some related)

def getCacheKeysRegexp (lower : CaseMapping) (uid : Option JsString)
    (params : Option RouteParams) (wildcard : Bool) :
    Except Unreadable (List Pattern) :=
  match getConf strategy uid with
  | none => Except.ok []
  | some cacheConf =>
      ((cacheConf.routes.filter (fun route => route.method = HttpMethod.GET)).mapM
        (fun route => getRouteRegExp lower (routeSeen route) params wildcard)).map
          List.flatten

/-- What the store reads of the strategy when it purges a content type. -/
def relatedSeen : RelatedStrategy :=
  { toCachePluginStrategy := strategySeen strategy
    clearRelatedCache := strategy.clearRelatedCache
    relatedContentTypeUid := fun uid =>
      ((getConf strategy (some uid)).map
        CacheContentTypeConfig.relatedContentTypeUid).getD [] }

end Config

/-!
## The summary
-/

structure ContentTypeStats where
  uid : Option JsString
  entries : Nat
  maxAge : Option Nat
  hitpass : Bool
  keysAuthIdentity : Bool
  unkeyedAuthenticatedRoutes : List JsString
  routes : List JsString
  relatedContentTypes : List JsString
deriving DecidableEq

structure StrategySummary where
  enableEtag : Bool
  enableXCacheHeaders : Bool
  enableDocumentServiceMiddleware : Bool
  clearRelatedCache : Bool
  keysPrefix : JsString
  maxAge : Nat
deriving DecidableEq

structure Totals where
  entries : Nat
  etags : Nat
  contentTypes : Nat
deriving DecidableEq

structure CacheSummary where
  provider : Option JsString
  strategy : StrategySummary
  totals : Totals
  contentTypes : List ContentTypeStats
deriving DecidableEq

/-- A companion of a body entry. -/
def isEtagKey (key : JsString) : Bool :=
  "_etag".toList.isSuffixOf key

def isNotFalse : Option (Hitpass Context) -> Bool
  | some (Hitpass.bool false) => false
  | _ => true

def statsOf (strategy : CachePluginStrategy Context)
    (entryKeys : List JsString) (uid : Option JsString)
    (regExps : List Pattern) : ContentTypeStats :=
  let conf := getConf strategy uid
  { uid
    entries := (entryKeys.filter (CacheStore.shouldDel regExps)).length
    maxAge := conf.map CacheContentTypeConfig.maxAge
    hitpass := isNotFalse (conf.map CacheContentTypeConfig.hitpass)
    keysAuthIdentity :=
      conf.any (fun cacheConf => cacheConf.keys.useAuth = UseAuth.bool true)
    unkeyedAuthenticatedRoutes := unkeyedAuthenticatedRoutes
      ((conf.map CacheContentTypeConfig.routes).getD [])
    routes := (((conf.map CacheContentTypeConfig.routes).getD []).filter
      (fun route => route.method = HttpMethod.GET)).map CacheRouteConfig.path
    relatedContentTypes := getRelatedCachedUid strategy uid }

def contentTypeStats (strategy : CachePluginStrategy Context)
    (lower : CaseMapping) (entryKeys : List JsString) (uid : Option JsString) :
    Except Unreadable ContentTypeStats :=
  (getCacheKeysRegexp strategy lower uid (some ∅) true).map
    (statsOf strategy entryKeys uid)

def entryKeysOf (keys : List JsString) : List JsString :=
  keys.filter (fun key => !isEtagKey key)

def summaryWith (providerName : Option JsString)
    (strategy : CachePluginStrategy Context) (keys : List JsString)
    (contentTypes : List ContentTypeStats) : CacheSummary where
  provider := providerName
  strategy :=
    { enableEtag := strategy.enableEtag
      enableXCacheHeaders := strategy.enableXCacheHeaders
      enableDocumentServiceMiddleware :=
        strategy.enableDocumentServiceMiddleware
      clearRelatedCache := strategy.clearRelatedCache
      keysPrefix := strategy.keysPrefix
      maxAge := strategy.maxAge }
  totals :=
    { entries := (entryKeysOf keys).length
      etags := keys.length - (entryKeysOf keys).length
      contentTypes := contentTypes.length }
  contentTypes

def summaryOf (providerName : Option JsString)
    (strategy : CachePluginStrategy Context) (lower : CaseMapping)
    (keys : List JsString) : Except Unreadable CacheSummary :=
  ((getUids strategy).mapM
    (contentTypeStats strategy lower (entryKeysOf keys))).map
      (summaryWith providerName strategy keys)

def summary {σ : Type} (providerName : Option JsString)
    (strategy : CachePluginStrategy Context) (lower : CaseMapping)
    (self : CacheStore) (provider : CacheProvider σ) (s : State σ) :
    Settled CacheSummary × State σ :=
  match self.keys provider s with
  | (Except.error e, s) => (Except.error e, s)
  | (Except.ok listed, s) =>
      ((summaryOf providerName strategy lower (listed.getD [])).mapError
        (fun e => Rejection.clear (ClearError.invalidPattern e)), s)

/-!
## The purge endpoints
-/

structure PurgeRequestBody where
  contentType : Option JsString
  params : Option RouteParams
  wildcard : Option Bool

inductive PurgeResponse where
  | badRequest (message : JsString) (contentType : Option JsString)
  | done
  | rejected (e : Rejection)
deriving DecidableEq

/-- `none` for a request without a body. -/
def purge {σ : Type} (strategy : CachePluginStrategy Context)
    (lower : CaseMapping) (self : CacheStore) (provider : CacheProvider σ)
    (body : Option PurgeRequestBody) (s : State σ) : PurgeResponse × State σ :=
  let given := body.getD { contentType := none, params := none, wildcard := none }
  match given.contentType.filter (fun uid => uid ≠ []) with
  | none => (PurgeResponse.badRequest "contentType is required".toList none, s)
  | some uid =>
      if isCached strategy (some uid) then
        let z := self.clearByUid provider (relatedSeen strategy) lower uid
          (given.params.getD ∅) (given.wildcard.getD false) s
        (match z.1 with
          | Except.ok _ => PurgeResponse.done
          | Except.error e => PurgeResponse.rejected e, z.2)
      else
        (PurgeResponse.badRequest "contentType is not cached".toList (some uid), s)

def handlePurge (uid : JsString) : PurgeRequestBody where
  contentType := some uid
  params := some ∅
  wildcard := some true

/-!
## The keys after a purge
-/

theorem keys_eraseAll (keys : List JsString) (held : Keyspace) :
    (eraseAll keys held).keys = held.keys.filter (fun key => key ∉ keys) := by
  induction keys generalizing held with
  | nil =>
      show held.keys = _
      rw [List.filter_eq_self.mpr]
      simp
  | cons first rest ih =>
      have herase := @List.Nodup.erase_eq_filter _ instBEqOfDecidableEq _ _
        held.keys_nodup first
      show (eraseAll rest (held.erase first)).keys = _
      rw [ih, AList.keys_erase, herase, List.filter_filter]
      congr 1
      funext key
      simp [Bool.and_comm, bne]
      rfl

section Purged

variable {keysPrefix : JsString}

theorem logicalKeys_delMany (keys : List JsString) (s : State Keyspace) :
    (prefixed keysPrefix).logicalKeys
        ((prefixed keysPrefix).delMany keyspace keys s).2.held.keys =
      ((prefixed keysPrefix).logicalKeys s.held.keys).filter
        (fun key => key ∉ keys) := by
  have hstored : forall key, key ∈ keys.map (prefixed keysPrefix).stored <->
      exists logical, logical ∈ keys ∧ keysPrefix ++ logical = key :=
    fun key => List.mem_map
  have hheld : ((prefixed keysPrefix).delMany keyspace keys s).2.held.keys =
      s.held.keys.filter
        (fun key => key ∉ keys.map (prefixed keysPrefix).stored) := by
    unfold CacheStore.delMany
    rw [if_neg (show (prefixed keysPrefix).unusable keyspace s ≠ true from
      Bool.false_ne_true)]
    split
    · rename_i hnil
      rw [hnil, List.filter_eq_self.mpr]
      simp
    · exact keys_eraseAll _ _
  rw [hheld]
  unfold CacheStore.logicalKeys
  split
  · rename_i hnil
    apply List.filter_congr
    intro key _
    have hsame : key ∈ keys.map (prefixed keysPrefix).stored <-> key ∈ keys := by
      rw [hstored]
      simp [show keysPrefix = [] from hnil]
    rw [decide_not, decide_not, decide_eq_decide.mpr hsame]
  · rw [List.filter_map, List.filter_filter, List.filter_filter]
    congr 1
    apply List.filter_congr
    intro key _
    cases hprefix : (prefixed keysPrefix).hasPrefix key with
    | false => simp
    | true =>
        have hsame : key ∈ keys.map (prefixed keysPrefix).stored <->
            (prefixed keysPrefix).stripPrefix key ∈ keys := by
          rcases List.isPrefixOf_iff_prefix.mp hprefix with ⟨rest, rfl⟩
          have hstrip : (prefixed keysPrefix).stripPrefix
              (keysPrefix ++ rest) = rest :=
            List.drop_left
          show keysPrefix ++ rest ∈ _ <->
            (prefixed keysPrefix).stripPrefix (keysPrefix ++ rest) ∈ keys
          rw [hstrip, hstored]
          constructor
          · intro h
            rcases h with ⟨logical, hlogical, hkey⟩
            rw [← List.append_cancel_left hkey]
            exact hlogical
          · exact fun h => ⟨rest, h, rfl⟩
        rw [Bool.true_and, Bool.and_true, decide_not, decide_eq_decide.mpr hsame]
        exact decide_not.symm

theorem logicalKeys_clearByRegexp (regExps : List Pattern) (s : State Keyspace) :
    (prefixed keysPrefix).logicalKeys
        ((prefixed keysPrefix).clearByRegexp keyspace regExps s).2.held.keys =
      ((prefixed keysPrefix).logicalKeys s.held.keys).filter
        (fun key => !CacheStore.shouldDel regExps key) := by
  have hclear : (prefixed keysPrefix).clearByRegexp keyspace regExps s =
      (prefixed keysPrefix).delMany keyspace
        (((prefixed keysPrefix).logicalKeys s.held.keys).filter
          (CacheStore.shouldDel regExps)) (s.record (some regExps)) := rfl
  rw [hclear, logicalKeys_delMany]
  apply List.filter_congr
  intro key hkey
  have hsame : key ∈ ((prefixed keysPrefix).logicalKeys s.held.keys).filter
      (CacheStore.shouldDel regExps) <->
        CacheStore.shouldDel regExps key = true := by
    rw [List.mem_filter]
    exact and_iff_right hkey
  cases hdel : CacheStore.shouldDel regExps key with
  | false =>
      rw [hdel] at hsame
      exact decide_eq_true (fun h => Bool.false_ne_true (hsame.mp h))
  | true => exact decide_eq_false (fun h => h (hsame.mpr hdel))

end Purged

end Store
end RestCache
