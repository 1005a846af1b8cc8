import RestCache.Config.TargetedPattern
import RestCache.Store.Dashboard

/-!
# Purging a document from its edit view

The edit view sends the scalar fields of the open document, with its documentId
for `:id`.  The server puts them in the place of the parameters of the content
type's routes and clears what these expressions match.
-/

namespace RestCache
namespace Admin

open Foundation
open Config (RouteParams GivesValues Substituted isPlain Modifier)
open Router (RoutePath Segment render)
open Store (CacheStore PurgeRequestBody PurgeResponse State Keyspace keyspace
  prefixed getConf getUids isCached isMatched getRelatedCachedUid relatedSeen
  getCacheKeysRegexp Named purge handlePurge)
open Strategy (HttpMethod CachePluginStrategy CacheRouteConfig
  CacheContentTypeConfig)

/-- The value of a field: a scalar by the text it prints as, or anything else. -/
inductive FieldValue where
  | string (s : JsString)
  | number (digits : JsString)
  | other
deriving DecidableEq

def FieldValue.scalar? : FieldValue -> Option JsString
  | FieldValue.string s => some s
  | FieldValue.number digits => some digits
  | FieldValue.other => none

abbrev Fields := AList (fun _ : JsString => FieldValue)

structure EditViewContext where
  collectionType : Option JsString
  document : Option Fields
  documentId : Option JsString
  model : JsString

def putScalar (params : RouteParams) (field : Sigma fun _ : JsString => FieldValue) :
    RouteParams :=
  match field.2.scalar? with
  | some text => params.insert field.1 text
  | none => params

def toPurgeParams (values : Option Fields) : RouteParams :=
  match values with
  | none => ∅
  | some values => values.entries.foldl putScalar ∅

def toEntryParams (values : Option Fields) (documentId : Option JsString) :
    RouteParams :=
  match documentId.filter (fun id => id ≠ []) with
  | none => toPurgeParams values
  | some documentId => (toPurgeParams values).insert "id".toList documentId

structure CachedDocument where
  isEligible : Bool
  params : RouteParams
  isSingleType : Bool

/-- `purgeable` is undefined until the uids have been fetched. -/
def useCachedDocument (purgeable : Option (List (Option JsString)))
    (context : EditViewContext) : CachedDocument :=
  let isSingleType := context.collectionType = some "single-types".toList
  { isEligible :=
      context.documentId.any (fun id => id ≠ []) &&
        purgeable.any (fun uids => uids.any (fun uid => uid = some context.model))
    params :=
      if isSingleType then ∅
      else toEntryParams context.document context.documentId
    isSingleType }

/-- What the purge action sends, if it is offered. -/
def purgeDocument (purgeable : Option (List (Option JsString)))
    (context : EditViewContext) : Option PurgeRequestBody :=
  let cached := useCachedDocument purgeable context
  if cached.isEligible then
    some
      { contentType := some context.model
        params := some cached.params
        wildcard := some cached.isSingleType }
  else
    none

/-!
## The values of a document
-/

def EditViewContext.valueOf (context : EditViewContext) (name : JsString) :
    Option JsString :=
  if name = "id".toList then context.documentId
  else context.document.bind fun fields =>
    (fields.lookup name).bind FieldValue.scalar?

theorem lookup_putScalar (params : RouteParams) (name key : JsString)
    (value : FieldValue) :
    (putScalar params ⟨key, value⟩).lookup name =
      (if name = key then value.scalar? else none).or (params.lookup name) := by
  have hput : putScalar params ⟨key, value⟩ =
      (value.scalar?.map (params.insert key)).getD params := by
    unfold putScalar
    cases value.scalar? <;> rfl
  rw [hput]
  split
  · rename_i heq
    rw [heq]
    cases value.scalar? with
    | none => rfl
    | some text => exact AList.lookup_insert params
  · rename_i hne
    cases value.scalar? with
    | none => rfl
    | some text => exact AList.lookup_insert_ne hne

theorem lookup_foldl_putScalar (name : JsString)
    {fields : List (Sigma fun _ : JsString => FieldValue)}
    (h : fields.NodupKeys) (params : RouteParams) :
    (fields.foldl putScalar params).lookup name =
      ((fields.dlookup name).bind FieldValue.scalar?).or (params.lookup name) := by
  induction fields generalizing params with
  | nil => rfl
  | cons field rest ih =>
      rcases field with ⟨key, value⟩
      rcases List.nodupKeys_cons.mp h with ⟨hkey, hrest⟩
      rw [List.foldl_cons, ih hrest, lookup_putScalar]
      split
      · rename_i heq
        rw [← heq] at hkey ⊢
        rw [List.dlookup_eq_none.mpr hkey, List.dlookup_cons_eq]
        rfl
      · rename_i hne
        rw [List.dlookup_cons_ne _ _ hne]
        rfl

theorem lookup_toPurgeParams (values : Option Fields) (name : JsString) :
    (toPurgeParams values).lookup name =
      values.bind fun fields => (fields.lookup name).bind FieldValue.scalar? := by
  cases values with
  | none => rfl
  | some fields =>
      show (fields.entries.foldl putScalar ∅).lookup name = _
      rw [lookup_foldl_putScalar name fields.nodupKeys, AList.lookup_empty,
        Option.or_none]
      rfl

/-- The documentId goes before a field of the name `id`. -/
theorem lookup_toEntryParams {context : EditViewContext}
    (h : context.documentId.any (fun id => id ≠ []) = true) (name : JsString) :
    (toEntryParams context.document context.documentId).lookup name =
      context.valueOf name := by
  rcases (Option.any_eq_true _ _).mp h with ⟨id, hdocumentId, hid⟩
  have hparams : toEntryParams context.document context.documentId =
      (toPurgeParams context.document).insert "id".toList id := by
    rw [toEntryParams, hdocumentId, Option.filter_some, if_pos hid]
  rw [hparams, EditViewContext.valueOf, hdocumentId]
  split
  · rename_i heq
    rw [heq]
    exact AList.lookup_insert _
  · rename_i hne
    rw [AList.lookup_insert_ne hne, lookup_toPurgeParams]

/-!
## What the purge removes
-/

section Purge

variable {Context : Type _} {strategy : CachePluginStrategy Context}
  {lower : CaseMapping} {context : EditViewContext}

/-- A route path of texts and plain parameters that the document can fill in. -/
structure Fills (context : EditViewContext)
    (cacheRoute : CacheRouteConfig Context) (route : RoutePath) : Prop where
  path : cacheRoute.path = render route
  names : ':' ∈ cacheRoute.path -> cacheRoute.paramNames ≠ []
  plain : forall segment, segment ∈ route -> isPlain segment = true
  values : forall name, Segment.param [] name none Modifier.none ∈ route ->
    exists value, context.valueOf name = some value ∧ value ≠ [] ∧ '/' ∉ value

/-- The path of the key is a route path with the values of the document. -/
def OwnKey (lower : CaseMapping) (context : EditViewContext)
    (routes : List (CacheRouteConfig Context)) (key : JsString) : Prop :=
  exists cacheRoute route path suffix, cacheRoute ∈ routes ∧
    Fills context cacheRoute route ∧ key = path ++ '?' :: suffix ∧
      Substituted lower Config.isPathChar
        (toEntryParams context.document context.documentId) route path

theorem targeted_pattern (lower : CaseMapping)
    (hid : context.documentId.any (fun id => id ≠ []) = true)
    {cacheRoute : CacheRouteConfig Context} {route : RoutePath}
    (h : Fills context cacheRoute route) :
    exists pattern, Config.getRouteRegExp lower (Boot.routeSeen cacheRoute)
        (some (toEntryParams context.document context.documentId)) false =
          Except.ok [pattern] ∧
      forall key, pattern.test key = true <->
        exists path suffix, key = path ++ '?' :: suffix ∧
          Substituted lower Config.isPathChar
            (toEntryParams context.document context.documentId) route path := by
  have hvalues : GivesValues
      (toEntryParams context.document context.documentId) route := by
    intro name hname
    rw [lookup_toEntryParams hid]
    exact h.values name hname
  rcases Config.compile_stands (@Config.stands_route lower _ _ h.plain hvalues) with
    ⟨pattern, hcompile, htest⟩
  refine ⟨pattern, ?_, htest⟩
  rw [Config.getRouteRegExp, Config.targeted_source h.path h.names h.plain hvalues,
    List.mapM_cons, hcompile]
  rfl

theorem targeted_patterns (lower : CaseMapping)
    (hid : context.documentId.any (fun id => id ≠ []) = true)
    {routes : List (CacheRouteConfig Context)}
    (hfills : forall cacheRoute, cacheRoute ∈ routes ->
      exists route, Fills context cacheRoute route) :
    exists found, routes.mapM (fun cacheRoute =>
        Config.getRouteRegExp lower (Boot.routeSeen cacheRoute)
          (some (toEntryParams context.document context.documentId)) false) =
            Except.ok found ∧
      forall key, CacheStore.shouldDel found.flatten key = true <->
        OwnKey lower context routes key := by
  rcases mapM_ok (fun cacheRoute hmem => by
      rcases hfills cacheRoute hmem with ⟨route, hroute⟩
      rcases targeted_pattern lower hid hroute with ⟨pattern, hpattern, _⟩
      exact ⟨[pattern], hpattern⟩) with ⟨found, hfound, hmem⟩
  refine ⟨found, hfound, ?_⟩
  intro key
  unfold CacheStore.shouldDel
  rw [List.any_eq_true]
  constructor
  · intro h
    rcases h with ⟨regExp, hregExp, htest⟩
    rcases List.mem_flatten.mp hregExp with ⟨patterns, hpatterns, hin⟩
    rcases (hmem patterns).mp hpatterns with ⟨cacheRoute, hroute, hgiven⟩
    rcases hfills cacheRoute hroute with ⟨route, hfills⟩
    rcases targeted_pattern lower hid hfills with ⟨pattern, hpattern, hiff⟩
    rw [hpattern, Except.ok.injEq] at hgiven
    rw [← hgiven, List.mem_singleton] at hin
    rw [hin] at htest
    rcases (hiff key).mp htest with ⟨path, suffix, hkey, hpath⟩
    exact ⟨cacheRoute, route, path, suffix, hroute, hfills, hkey, hpath⟩
  · intro h
    rcases h with ⟨cacheRoute, route, path, suffix, hroute, hfills, hkey, hpath⟩
    rcases targeted_pattern lower hid hfills with ⟨pattern, hpattern, hiff⟩
    refine ⟨pattern, ?_, (hiff key).mpr ⟨path, suffix, hkey, hpath⟩⟩
    exact List.mem_flatten.mpr ⟨[pattern],
      (hmem _).mpr ⟨cacheRoute, hroute, hpattern⟩, List.mem_singleton.mpr rfl⟩

variable {keysPrefix : JsString} {s : State Keyspace} {body : PurgeRequestBody}
  {cacheConf : CacheContentTypeConfig Context}

/-- The action is offered for cached content types, once there is a document. -/
theorem purgeDocument_offered
    (h : purgeDocument (some (getUids strategy)) context = some body) :
    context.documentId.any (fun id => id ≠ []) = true ∧
      isCached strategy (some context.model) = true ∧
        body = PurgeRequestBody.mk (some context.model)
          (some (useCachedDocument (some (getUids strategy)) context).params)
          (some (useCachedDocument (some (getUids strategy)) context).isSingleType) := by
  simp only [purgeDocument] at h
  split at h
  · rename_i heligible
    rcases (Bool.and_eq_true _ _).mp heligible with ⟨hid, huids⟩
    exact ⟨hid, Store.isCached_iff_mem_getUids.mpr (Store.any_getUids.mp huids),
      (Option.some.inj h).symm⟩
  · cases h

/--
The purge that the edit view offers for a document of a collection removes the
entries of the routes that the document fills in and, where related entries are
cleared too, those of the related content types; it removes no others.
-/
theorem purgeDocument_clears (hnamed : Named strategy) (hmodel : context.model ≠ [])
    (hcollection : context.collectionType ≠ some "single-types".toList)
    (hoffered : purgeDocument (some (getUids strategy)) context = some body)
    (hconf : getConf strategy (some context.model) = some cacheConf)
    (hfills : forall cacheRoute, cacheRoute ∈ cacheConf.routes ->
      cacheRoute.method = HttpMethod.GET ->
        exists route, Fills context cacheRoute route)
    (hreadable : forall given, given ∈ getUids strategy ->
      exists regExps, getCacheKeysRegexp strategy lower given (some ∅) true =
        Except.ok regExps) :
    exists s', purge strategy lower (prefixed keysPrefix) keyspace (some body) s =
        (PurgeResponse.done, s') ∧
      forall key, key ∈ (prefixed keysPrefix).logicalKeys s'.held.keys <->
        key ∈ (prefixed keysPrefix).logicalKeys s.held.keys ∧
          ¬ (OwnKey lower context (cacheConf.routes.filter
              (fun route => route.method = HttpMethod.GET)) key ∨
            strategy.clearRelatedCache = true ∧ exists related,
              related ∈ getRelatedCachedUid strategy (some context.model) ∧
                isMatched strategy lower (some related) key = true) := by
  rcases purgeDocument_offered hoffered with ⟨hid, hcached, rfl⟩
  have hsingle : (useCachedDocument (some (getUids strategy)) context).isSingleType =
      false :=
    decide_eq_false hcollection
  have hparams : (useCachedDocument (some (getUids strategy)) context).params =
      toEntryParams context.document context.documentId :=
    if_neg hcollection
  rcases @targeted_patterns _ context lower hid (cacheConf.routes.filter
      (fun route => route.method = HttpMethod.GET)) (fun cacheRoute hmem =>
    hfills cacheRoute (List.mem_filter.mp hmem).left
      (of_decide_eq_true (List.mem_filter.mp hmem).right)) with
    ⟨found, hfound, hown⟩
  have hpatterns : getCacheKeysRegexp strategy lower (some context.model)
      (some (toEntryParams context.document context.documentId)) false =
        Except.ok found.flatten := by
    unfold getCacheKeysRegexp
    rw [hconf]
    show Except.map List.flatten _ = _
    rw [hfound]
    rfl
  rcases Store.clearPatterns_ok hnamed hcached hreadable hpatterns with
    ⟨issued, hissued, hmatched⟩
  rw [hsingle, hparams]
  refine ⟨_, Store.purge_done hmodel hcached hissued, ?_⟩
  intro key
  rw [Store.logicalKeys_clearByRegexp, List.mem_filter, ← hown, ← hmatched,
    Bool.not_eq_true', Bool.not_eq_true]

end Purge

/-!
An article, with the number of its row, a slug and a relation.
-/

def articleUid : JsString :=
  "api::article.article".toList

def listRoute : RoutePath :=
  [Segment.text "api".toList, Segment.text "articles".toList]

def documentRoute : RoutePath :=
  listRoute ++ [Segment.param [] "id".toList none Modifier.none]

def slugRoute : RoutePath :=
  listRoute ++ [Segment.text "by".toList,
    Segment.param [] "slug".toList none Modifier.none]

def cachedGet (path : JsString) (paramNames : List JsString) :
    CacheRouteConfig Unit :=
  { Boot.newsCached HttpMethod.GET path with paramNames }

def articleRoutes : List (CacheRouteConfig Unit) :=
  [cachedGet "/api/articles".toList [],
    cachedGet "/api/articles/:id".toList ["id".toList],
    cachedGet "/api/articles/by/:slug".toList ["slug".toList]]

def articleStrategy : CachePluginStrategy Unit :=
  { Boot.newsStrategy true with
    clearRelatedCache := false
    contentTypes := [Boot.newsContentType articleUid articleRoutes] }

def openArticle : EditViewContext where
  collectionType := some "collection-types".toList
  document := some (((AList.singleton "id".toList
    (FieldValue.number "7".toList)).insert "slug".toList
      (FieldValue.string "hello".toList)).insert "author".toList FieldValue.other)
  documentId := some "k3d9".toList
  model := articleUid

theorem article_fills (cacheRoute : CacheRouteConfig Unit)
    (h : cacheRoute ∈ articleRoutes) :
    exists route, Fills openArticle cacheRoute route := by
  have hlist : forall name,
      Segment.param [] name none Modifier.none ∉ listRoute := by
    intro name hmem
    simp [listRoute] at hmem
  have hplain : forall route : RoutePath,
      route.all (fun segment => isPlain segment) = true ->
        forall segment, segment ∈ route -> isPlain segment = true :=
    fun route hall => List.all_eq_true.mp hall
  simp only [articleRoutes, List.mem_cons, List.not_mem_nil, or_false] at h
  rcases h with rfl | rfl | rfl
  · exact ⟨listRoute, rfl, fun hcolon => absurd hcolon (by decide),
      hplain _ (by decide), fun name hname => absurd hname (hlist name)⟩
  · refine ⟨documentRoute, rfl, fun _ => List.cons_ne_nil _ _,
      hplain _ (by decide), ?_⟩
    intro name hname
    have hid : name = "id".toList := by
      simpa [documentRoute, hlist] using hname
    rw [hid]
    exact ⟨"k3d9".toList, by decide, by decide, by decide⟩
  · refine ⟨slugRoute, rfl, fun _ => List.cons_ne_nil _ _,
      hplain _ (by decide), ?_⟩
    intro name hname
    have hslug : name = "slug".toList := by
      simpa [slugRoute, hlist] using hname
    rw [hslug]
    exact ⟨"hello".toList, by decide, by decide, by decide⟩

theorem article_readable (given : Option JsString)
    (h : given ∈ getUids articleStrategy) :
    exists regExps, getCacheKeysRegexp articleStrategy CaseMapping.latin1 given
      (some ∅) true = Except.ok regExps := by
  have hgiven : given = some articleUid := List.mem_singleton.mp h
  have hok : (getCacheKeysRegexp articleStrategy CaseMapping.latin1
      (some articleUid) (some ∅) true).isOk = true := by
    decide +kernel
  rw [hgiven]
  cases hpatterns : getCacheKeysRegexp articleStrategy CaseMapping.latin1
      (some articleUid) (some ∅) true with
  | error e =>
      rw [hpatterns] at hok
      cases hok
  | ok regExps => exact ⟨regExps, rfl⟩

def articleHeld : State Keyspace where
  log := Store.PurgeLog.init
  held := ((AList.singleton "b/api/articles/k3d9?".toList []).insert
    "b/api/articles/by/hello?".toList []).insert "b/api/articles/7?".toList []

theorem purgeDocument_clears_article :
    exists body s', purgeDocument (some (getUids articleStrategy)) openArticle =
        some body ∧
      purge articleStrategy CaseMapping.latin1 (prefixed "b".toList) keyspace
          (some body) articleHeld = (PurgeResponse.done, s') ∧
        forall key, key ∈ (prefixed "b".toList).logicalKeys s'.held.keys ->
          ¬ OwnKey CaseMapping.latin1 openArticle (articleRoutes.filter
            (fun route => route.method = HttpMethod.GET)) key := by
  rcases Option.isSome_iff_exists.mp (show (purgeDocument
    (some (getUids articleStrategy)) openArticle).isSome = true by decide) with
      ⟨body, hbody⟩
  rcases @purgeDocument_clears _ articleStrategy CaseMapping.latin1 openArticle
      "b".toList articleHeld body (Boot.newsContentType articleUid articleRoutes)
      (fun cacheConf hmem => ⟨articleUid, by
        rw [List.mem_singleton.mp hmem]
        rfl⟩)
      (by decide) (by decide) hbody rfl
      (fun cacheRoute hmem _ => article_fills cacheRoute hmem)
      article_readable with ⟨s', hpurge, hkeys⟩
  refine ⟨body, s', hbody, hpurge, ?_⟩
  intro key hkey hown
  exact ((hkeys key).mp hkey).right (Or.inl hown)

end Admin
end RestCache
