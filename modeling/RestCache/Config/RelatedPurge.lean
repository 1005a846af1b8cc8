import RestCache.Config.PurgeReach
import RestCache.Config.RelatedModels

/-!
# Purging what a document is embedded in

A purge that clears related entries issues the wildcard patterns of the content
types that reach the purged one.  A response can also hold files, which no
attribute that is traversed points at.
-/

namespace RestCache
namespace Config

open Foundation
open RegExpSource

/-!
## Embedding
-/

def uploadFile : JsString :=
  "plugin::upload.file".toList

structure ResolvedStrategy (schemas : Schemas) extends CachePluginStrategy where
  clearRelatedCache : Bool
  resolved : forall cacheConf, cacheConf ∈ contentTypes ->
    cacheConf.contentType ≠ [] ∧
      exists schema, schema ∈ schemas.contentTypes ∧
        schema.uid = cacheConf.contentType

namespace ResolvedStrategy

variable {schemas : Schemas} (strategy : ResolvedStrategy schemas)

def related : RelatedStrategy :=
  { strategy.toCachePluginStrategy with
    clearRelatedCache := strategy.clearRelatedCache
    relatedContentTypeUid := getRelatedModelsUid false schemas }

theorem uid_ne_nil {uid : JsString}
    (hcached : strategy.related.isCached uid = true) : uid ≠ [] := by
  rcases Option.isSome_iff_exists.mp hcached with ⟨cacheConf, hget⟩
  have huid := List.find?_some hget
  rw [decide_eq_true_iff] at huid
  rw [← huid]
  exact (strategy.resolved cacheConf (List.mem_of_find?_eq_some hget)).left

variable (lower : CaseMapping) (uid : JsString) (params : RouteParams)
  (wildcard : Bool)

/-- The content type is cached and reaches the purged one without media. -/
def Traversed (other : JsString) : Prop :=
  strategy.related.isCached other = true ∧
    ReachesModel false schemas (Model.contentType other) (Model.contentType uid)

/-- The patterns of the purged type and of those that are traversed compile. -/
def Buildable : Prop :=
  (exists own, strategy.related.patternsFor lower uid params wildcard =
    Except.ok own) ∧
    forall other, strategy.Traversed uid other ->
      exists regExps, strategy.related.patternsFor lower other ∅ true =
        Except.ok regExps

def OwnOrTraversed (regExp : Pattern) : Prop :=
  (exists own, strategy.related.patternsFor lower uid params wildcard =
    Except.ok own ∧ regExp ∈ own) ∨
    exists other regExps, strategy.Traversed uid other ∧
      strategy.related.patternsFor lower other ∅ true = Except.ok regExps ∧
        regExp ∈ regExps

end ResolvedStrategy

section Purge

variable {schemas : Schemas} {strategy : ResolvedStrategy schemas}
  {lower : CaseMapping} {uid : JsString} {params : RouteParams}
  {wildcard : Bool}

theorem mem_relatedCached (hcached : strategy.related.isCached uid = true)
    (other : JsString) :
    other ∈ (strategy.related.relatedContentTypeUid uid).filter
        strategy.related.isCached <->
      strategy.Traversed uid other := by
  rw [List.mem_filter, And.comm]
  apply and_congr_right
  intro _
  exact mem_getRelatedModelsUid (strategy.uid_ne_nil hcached) other

theorem clearPatterns_eq (hrelated : strategy.clearRelatedCache = true)
    (hcached : strategy.related.isCached uid = true) {own : List Pattern}
    (hown : strategy.related.patternsFor lower uid params wildcard =
      Except.ok own) :
    strategy.related.clearPatterns lower uid params wildcard =
      (strategy.related.wildcardPatterns lower
        ((strategy.related.relatedContentTypeUid uid).filter
          strategy.related.isCached)).map (fun related => own ++ related) := by
  rw [RelatedStrategy.clearPatterns, if_pos hcached, hown]
  exact if_pos hrelated

theorem clearPatterns_own (hcached : strategy.related.isCached uid = true)
    {issued : List Pattern}
    (h : strategy.related.clearPatterns lower uid params wildcard =
      Except.ok issued) :
    exists own, strategy.related.patternsFor lower uid params wildcard =
      Except.ok own := by
  rw [RelatedStrategy.clearPatterns, if_pos hcached] at h
  cases hown : strategy.related.patternsFor lower uid params wildcard with
  | error e =>
      rw [hown] at h
      exact nomatch h
  | ok own => exact ⟨own, rfl⟩

theorem clearPatterns_of_buildable (hrelated : strategy.clearRelatedCache = true)
    (hcached : strategy.related.isCached uid = true)
    (h : strategy.Buildable lower uid params wildcard) :
    exists issued,
      strategy.related.clearPatterns lower uid params wildcard =
          Except.ok issued ∧
        forall regExp, regExp ∈ issued <->
          strategy.OwnOrTraversed lower uid params wildcard regExp := by
  rcases h with ⟨⟨own, hown⟩, htraversed⟩
  have hall : forall other,
      other ∈ (strategy.related.relatedContentTypeUid uid).filter
          strategy.related.isCached ->
        exists regExps, strategy.related.patternsFor lower other ∅ true =
          Except.ok regExps :=
    fun other hother =>
      htraversed other ((mem_relatedCached hcached other).mp hother)
  rcases wildcardPatterns_ok hall with ⟨related, hpatterns, hmem⟩
  refine ⟨own ++ related, ?_, ?_⟩
  · rw [clearPatterns_eq hrelated hcached hown, hpatterns]
    rfl
  · intro regExp
    rw [List.mem_append, hmem]
    constructor
    · intro hgiven
      rcases hgiven with hregExp | ⟨other, regExps, hother, hregExps, hregExp⟩
      · exact Or.inl ⟨own, hown, hregExp⟩
      · exact Or.inr ⟨other, regExps,
          (mem_relatedCached hcached other).mp hother, hregExps, hregExp⟩
    · intro hgiven
      rcases hgiven with ⟨own', hown', hregExp⟩ |
        ⟨other, regExps, hother, hregExps, hregExp⟩
      · rw [hown, Except.ok.injEq] at hown'
        rw [hown']
        exact Or.inl hregExp
      · exact Or.inr ⟨other, regExps,
          (mem_relatedCached hcached other).mpr hother, hregExps, hregExp⟩

theorem buildable_of_clearPatterns (hrelated : strategy.clearRelatedCache = true)
    (hcached : strategy.related.isCached uid = true) {issued : List Pattern}
    (h : strategy.related.clearPatterns lower uid params wildcard =
      Except.ok issued) :
    strategy.Buildable lower uid params wildcard := by
  rcases clearPatterns_own hcached h with ⟨own, hown⟩
  apply And.intro ⟨own, hown⟩
  rw [clearPatterns_eq hrelated hcached hown] at h
  cases hrest : strategy.related.wildcardPatterns lower
      ((strategy.related.relatedContentTypeUid uid).filter
        strategy.related.isCached) with
  | error e =>
      rw [hrest] at h
      exact nomatch h
  | ok related =>
      intro other hother
      exact of_wildcardPatterns_ok hrest other
        ((mem_relatedCached hcached other).mpr hother)

end Purge

/-!
## Routes and patterns
-/

section Routes

variable {schemas : Schemas} {strategy : ResolvedStrategy schemas}
  {lower : CaseMapping} {uid : JsString} {params : RouteParams}
  {wildcard : Bool}

end Routes

def articleSchemas : Schemas where
  components := []
  contentTypes :=
    [{ uid := "api::article.article".toList
       attributes :=
         [{ type := AttributeType.relation
            target := some "api::category.category".toList
            component := none, components := none, isPrivate := false },
          { type := AttributeType.media
            target := none, component := none, components := none
            isPrivate := false }] },
     { uid := "api::category.category".toList, attributes := [] },
     { uid := uploadFile, attributes := [] }]

def cachedAt (contentType path : JsString) : CacheContentTypeConfig where
  contentType := contentType
  routes := [{ path, method := "GET".toList, paramNames := [] }]

end Config
end RestCache
