import RestCache.Config.RouteRegExp
import RestCache.Foundation.FallibleMap

/-!
# The patterns a purge of a content type issues

The targeted or wildcard patterns of the content type and, where related
entries are cleared too, the wildcard patterns of every cached content type
whose responses can hold it.
-/

namespace RestCache
namespace Config

open Foundation
open RegExpSource

structure RelatedStrategy extends CachePluginStrategy where
  clearRelatedCache : Bool
  relatedContentTypeUid : JsString -> List JsString

inductive ClearError where
  | noConfiguration (uid : JsString)
  | invalidPattern (e : Unreadable)
deriving DecidableEq

def ClearError.message : ClearError -> Option JsString
  | ClearError.noConfiguration uid =>
      some ("Unable to clear cache: no configuration found for contentType \"".toList ++
        uid ++ ['"'])
  | ClearError.invalidPattern _ => none

namespace RelatedStrategy

variable (strategy : RelatedStrategy) (lower : CaseMapping)

def isCached (uid : JsString) : Bool :=
  (strategy.get uid).isSome

/-- `getCacheKeysRegexp`, which throws where a pattern is not readable. -/
def patternsFor (uid : JsString) (params : RouteParams) (wildcard : Bool) :
    Except ClearError (List Pattern) :=
  (strategy.getCacheKeysRegexp lower uid (some params) wildcard).mapError
    ClearError.invalidPattern

def wildcardPatterns (uids : List JsString) :
    Except ClearError (List Pattern) :=
  (uids.mapM (fun uid => strategy.patternsFor lower uid ∅ true)).map
    List.flatten

def clearPatterns (uid : JsString) (params : RouteParams) (wildcard : Bool) :
    Except ClearError (List Pattern) :=
  if strategy.isCached uid then
    (strategy.patternsFor lower uid params wildcard).bind fun regExps =>
      if strategy.clearRelatedCache then
        (strategy.wildcardPatterns lower
          ((strategy.relatedContentTypeUid uid).filter strategy.isCached)).map
            (fun related => regExps ++ related)
      else
        Except.ok regExps
  else
    Except.error (ClearError.noConfiguration uid)

/-- The routes of the content type that are purged have no parameters. -/
def plainRoutes (uid : JsString) : Bool :=
  (strategy.get uid).all fun cacheConf =>
    (cacheConf.routes.filter (fun route => route.method = "GET".toList)).all
      (fun route => route.paramNames = [])

/-- The content types whose entries the patterns of `clearByUid` all match. -/
def coveredTypes (uid : JsString) (params : RouteParams) (wildcard : Bool) :
    List JsString :=
  match strategy.clearPatterns lower uid params wildcard with
  | Except.error _ => []
  | Except.ok _ =>
      (if wildcard || strategy.plainRoutes uid then [uid] else []) ++
        (if strategy.clearRelatedCache then
          (strategy.relatedContentTypeUid uid).filter strategy.isCached
        else [])

/-- All wildcard patterns of the content type are among the issued ones. -/
def IssuedFor (uid : JsString) (issued : List Pattern) : Prop :=
  exists regExps, strategy.patternsFor lower uid ∅ true = Except.ok regExps ∧
    regExps ⊆ issued

end RelatedStrategy

/-!
## The patterns of several content types
-/

section Patterns

variable {strategy : RelatedStrategy} {lower : CaseMapping}

theorem wildcardPatterns_ok {uids : List JsString}
    (h : forall uid, uid ∈ uids ->
      exists regExps, strategy.patternsFor lower uid ∅ true =
        Except.ok regExps) :
    exists issued, strategy.wildcardPatterns lower uids = Except.ok issued ∧
      forall regExp, regExp ∈ issued <->
        exists uid regExps, uid ∈ uids ∧
          strategy.patternsFor lower uid ∅ true = Except.ok regExps ∧
            regExp ∈ regExps := by
  rcases mapM_ok h with ⟨groups, hgroups, hmem⟩
  refine ⟨groups.flatten, ?_, ?_⟩
  · rw [RelatedStrategy.wildcardPatterns, hgroups]
    rfl
  · intro regExp
    rw [List.mem_flatten]
    constructor
    · intro hgiven
      rcases hgiven with ⟨regExps, hregExps, hregExp⟩
      rcases (hmem regExps).mp hregExps with ⟨uid, huid, hpatterns⟩
      exact ⟨uid, regExps, huid, hpatterns, hregExp⟩
    · intro hgiven
      rcases hgiven with ⟨uid, regExps, huid, hpatterns, hregExp⟩
      exact ⟨regExps, (hmem regExps).mpr ⟨uid, huid, hpatterns⟩, hregExp⟩

theorem of_wildcardPatterns_ok {uids : List JsString} {issued : List Pattern}
    (h : strategy.wildcardPatterns lower uids = Except.ok issued) :
    forall uid, uid ∈ uids ->
      exists regExps, strategy.patternsFor lower uid ∅ true =
        Except.ok regExps := by
  rw [RelatedStrategy.wildcardPatterns] at h
  cases hgroups : uids.mapM
      (fun uid => strategy.patternsFor lower uid ∅ true) with
  | error e =>
      rw [hgroups] at h
      exact absurd h (by simp [Except.map])
  | ok groups => exact of_mapM_ok hgroups

end Patterns

/-!
## What a purge covers
-/

section Covered

variable {strategy : RelatedStrategy} {lower : CaseMapping}

theorem patternsFor_plain {uid : JsString} {wildcard : Bool}
    (h : (wildcard || strategy.plainRoutes uid) = true) (params : RouteParams) :
    strategy.patternsFor lower uid params wildcard =
      strategy.patternsFor lower uid ∅ true := by
  have hroutes : strategy.getCacheKeysRegexp lower uid (some params) wildcard =
      strategy.getCacheKeysRegexp lower uid (some ∅) true := by
    unfold CachePluginStrategy.getCacheKeysRegexp
    cases hget : strategy.get uid with
    | none => rfl
    | some cacheConf =>
        have hroute : forall route, route ∈ cacheConf.routes.filter
            (fun route => route.method = "GET".toList) ->
              getRouteRegExp lower route (some params) wildcard =
                getRouteRegExp lower route (some ∅) true := by
          intro route hmem
          unfold getRouteRegExp routeSources
          by_cases hplain : route.paramNames = []
          · rw [if_pos hplain, if_pos hplain]
          · cases wildcard with
            | true => rfl
            | false =>
                rw [Bool.false_or, RelatedStrategy.plainRoutes, hget] at h
                exact absurd (of_decide_eq_true
                  (List.all_eq_true.mp h route hmem)) hplain
        simp only
        congr 1
        exact mapM_eq_mapM (List.forall₂_same.mpr hroute)
  unfold RelatedStrategy.patternsFor
  rw [hroutes]

theorem clearPatterns_ok {uid : JsString} {params : RouteParams}
    {wildcard : Bool} {issued : List Pattern}
    (h : strategy.clearPatterns lower uid params wildcard = Except.ok issued) :
    exists own related,
      strategy.patternsFor lower uid params wildcard = Except.ok own ∧
        issued = own ++ related ∧
          (strategy.clearRelatedCache = true ->
            strategy.wildcardPatterns lower
              ((strategy.relatedContentTypeUid uid).filter strategy.isCached) =
                Except.ok related) := by
  unfold RelatedStrategy.clearPatterns at h
  split at h
  · rcases bind_eq_ok.mp h with ⟨own, hown, hrest⟩
    split at hrest
    · rcases map_eq_ok.mp hrest with ⟨related, hrelated, rfl⟩
      exact ⟨own, related, hown, rfl, fun _ => hrelated⟩
    · rename_i hoff
      refine ⟨own, [], hown, ?_, fun hon => absurd hon hoff⟩
      rw [List.append_nil]
      exact (Except.ok.inj hrest).symm
  · exact absurd h (by simp)

theorem wildcardPatterns_issued {uids : List JsString} {issued : List Pattern}
    (h : strategy.wildcardPatterns lower uids = Except.ok issued)
    {uid : JsString} (huid : uid ∈ uids) : strategy.IssuedFor lower uid issued := by
  rcases wildcardPatterns_ok (of_wildcardPatterns_ok h) with
    ⟨issued', hissued', hmem⟩
  rw [h, Except.ok.injEq] at hissued'
  subst hissued'
  rcases of_wildcardPatterns_ok h uid huid with ⟨regExps, hregExps⟩
  exact ⟨regExps, hregExps, fun regExp hregExp =>
    (hmem regExp).mpr ⟨uid, regExps, huid, hregExps, hregExp⟩⟩

theorem issuedFor_of_covered {uid other : JsString} {params : RouteParams}
    {wildcard : Bool}
    (h : other ∈ strategy.coveredTypes lower uid params wildcard) :
    exists issued,
      strategy.clearPatterns lower uid params wildcard = Except.ok issued ∧
        strategy.IssuedFor lower other issued := by
  unfold RelatedStrategy.coveredTypes at h
  cases hissued : strategy.clearPatterns lower uid params wildcard with
  | error e =>
      rw [hissued] at h
      exact absurd h List.not_mem_nil
  | ok issued =>
      rw [hissued] at h
      refine ⟨issued, rfl, ?_⟩
      rcases clearPatterns_ok hissued with ⟨own, related, hown, rfl, hrelated⟩
      rcases List.mem_append.mp h with hfirst | hsecond
      · split at hfirst
        · rename_i hplain
          rw [List.mem_singleton.mp hfirst]
          rw [patternsFor_plain hplain params] at hown
          exact ⟨own, hown, List.subset_append_left own related⟩
        · exact absurd hfirst List.not_mem_nil
      · split at hsecond
        · rename_i hon
          rcases wildcardPatterns_issued (hrelated hon) hsecond with
            ⟨regExps, hregExps, hsub⟩
          exact ⟨regExps, hregExps,
            List.Subset.trans hsub (List.subset_append_right own related)⟩
        · exact absurd hsecond List.not_mem_nil

end Covered

end Config
end RestCache
