import RestCache.Boot.Registered
import RestCache.Config.RelatedPurge
import RestCache.Store.CacheStats

/-!
# Purging from the dashboard

What the summary shows after a content type was purged from it: no entries of
that content type and of those that are cleared with it, and the other counts as
far as they share no entries with these.
-/

namespace RestCache
namespace Store

open Foundation
open Config (ClearError RouteParams)
open Boot (routeSeen contentTypeSeen)
open Strategy (HttpMethod CacheRouteConfig CacheContentTypeConfig
  CachePluginStrategy printed)

variable {Context : Type _}

/-!
## Two services, one strategy
-/

def Named (strategy : CachePluginStrategy Context) : Prop :=
  forall cacheConf, cacheConf ∈ strategy.contentTypes ->
    exists uid, cacheConf.contentType = some uid

section Seen

variable {strategy : CachePluginStrategy Context} {lower : CaseMapping}
  {uid : JsString}

theorem find?_seen {contentTypes : List (CacheContentTypeConfig Context)}
    (hnamed : forall cacheConf, cacheConf ∈ contentTypes ->
      exists uid, cacheConf.contentType = some uid) :
    (contentTypes.map contentTypeSeen).find?
        (fun cacheConf => cacheConf.contentType = uid) =
      (contentTypes.find?
        (fun cacheConf => cacheConf.contentType = some uid)).map contentTypeSeen := by
  induction contentTypes with
  | nil => rfl
  | cons cacheConf rest ih =>
      rcases hnamed cacheConf List.mem_cons_self with ⟨own, hown⟩
      have hrest := ih fun other hother =>
        hnamed other (List.mem_cons_of_mem cacheConf hother)
      have hseen : (contentTypeSeen cacheConf).contentType = own := by
        show printed cacheConf.contentType = own
        rw [hown]
        rfl
      rw [List.map_cons, List.find?_cons, List.find?_cons, hseen, hown]
      by_cases h : own = uid
      · simp [h]
      · simp [h, hrest]

theorem get_relatedSeen (hnamed : Named strategy) :
    (relatedSeen strategy).get uid =
      (getConf strategy (some uid)).map contentTypeSeen :=
  find?_seen hnamed

theorem methodText_get (method : HttpMethod) :
    Boot.methodText method = "GET".toList <-> method = HttpMethod.GET := by
  cases method <;> decide

theorem getCacheKeysRegexp_relatedSeen (hnamed : Named strategy)
    (params : Option RouteParams) (wildcard : Bool) :
    (relatedSeen strategy).getCacheKeysRegexp lower uid params wildcard =
      getCacheKeysRegexp strategy lower (some uid) params wildcard := by
  unfold Config.CachePluginStrategy.getCacheKeysRegexp getCacheKeysRegexp
  rw [get_relatedSeen hnamed]
  cases getConf strategy (some uid) with
  | none => rfl
  | some cacheConf =>
      have hroutes : (cacheConf.routes.map routeSeen).filter
          (fun route => route.method = "GET".toList) =
        (cacheConf.routes.filter
          (fun route => route.method = HttpMethod.GET)).map routeSeen := by
        rw [List.filter_map]
        congr 2
        funext route
        exact decide_eq_decide.mpr (methodText_get route.method)
      show Except.map List.flatten
        (((cacheConf.routes.map routeSeen).filter _).mapM _) = _
      rw [hroutes, List.mapM_map]
      rfl

theorem isCached_relatedSeen (hnamed : Named strategy) :
    (relatedSeen strategy).isCached uid = isCached strategy (some uid) := by
  show ((relatedSeen strategy).get uid).isSome = _
  rw [get_relatedSeen hnamed, Option.isSome_map]
  rfl

theorem isCached_iff_mem_getUids {given : Option JsString} :
    isCached strategy given = true <-> given ∈ getUids strategy := by
  unfold isCached getConf getUids
  rw [List.find?_isSome, List.mem_map]
  constructor
  · intro h
    rcases h with ⟨cacheConf, hmem, huid⟩
    exact ⟨cacheConf, hmem, of_decide_eq_true huid⟩
  · intro h
    rcases h with ⟨cacheConf, hmem, huid⟩
    exact ⟨cacheConf, hmem, decide_eq_true huid⟩

theorem any_getUids {given : Option JsString} :
    (getUids strategy).any (fun cached => cached = given) = true <->
      given ∈ getUids strategy := by
  rw [List.any_eq_true]
  constructor
  · intro h
    rcases h with ⟨cached, hmem, hsame⟩
    exact of_decide_eq_true hsame ▸ hmem
  · exact fun hmem => ⟨given, hmem, decide_eq_true rfl⟩

theorem related_relatedSeen (hnamed : Named strategy) :
    ((relatedSeen strategy).relatedContentTypeUid uid).filter
        (relatedSeen strategy).isCached =
      getRelatedCachedUid strategy (some uid) := by
  have hcached : forall related, (relatedSeen strategy).isCached related =
      (getUids strategy).any (fun cached => cached = some related) := by
    intro related
    rw [isCached_relatedSeen hnamed]
    exact Bool.eq_iff_iff.mpr (isCached_iff_mem_getUids.trans any_getUids.symm)
  unfold getRelatedCachedUid
  show ((((getConf strategy (some uid)).map
    CacheContentTypeConfig.relatedContentTypeUid).getD []).filter _) = _
  cases getConf strategy (some uid) with
  | none => rfl
  | some cacheConf =>
      apply List.filter_congr
      intro related _
      exact hcached related

end Seen

/-!
## What a purge from the dashboard reaches
-/

def purgedUids (strategy : CachePluginStrategy Context) (uid : JsString) :
    List JsString :=
  uid :: (if strategy.clearRelatedCache then
    getRelatedCachedUid strategy (some uid) else [])

def isMatched (strategy : CachePluginStrategy Context) (lower : CaseMapping)
    (uid : Option JsString) (key : JsString) : Bool :=
  (getCacheKeysRegexp strategy lower uid (some ∅) true).toOption.any
    (fun regExps => CacheStore.shouldDel regExps key)

section Reached

variable {strategy : CachePluginStrategy Context} {lower : CaseMapping}
  {uid : JsString}

theorem isMatched_eq {given : Option JsString} {regExps : List Pattern}
    (h : getCacheKeysRegexp strategy lower given (some ∅) true =
      Except.ok regExps) :
    isMatched strategy lower given = CacheStore.shouldDel regExps := by
  funext key
  rw [isMatched, h]
  rfl

theorem mem_getUids_of_related {target : JsString}
    (h : target ∈ getRelatedCachedUid strategy (some uid)) :
    some target ∈ getUids strategy := by
  unfold getRelatedCachedUid at h
  split at h
  · exact absurd h List.not_mem_nil
  · exact any_getUids.mp (List.mem_filter.mp h).right

theorem mem_getUids_of_purged (hcached : isCached strategy (some uid) = true)
    {target : JsString} (h : target ∈ purgedUids strategy uid) :
    some target ∈ getUids strategy := by
  rcases List.mem_cons.mp h with hown | hrelated
  · rw [hown]
    exact isCached_iff_mem_getUids.mp hcached
  · split at hrelated
    · exact mem_getUids_of_related hrelated
    · exact absurd hrelated List.not_mem_nil

/-- The patterns of a purge are its own and the wildcards of what is related. -/
theorem clearPatterns_ok (hnamed : Named strategy)
    (hcached : isCached strategy (some uid) = true)
    (hreadable : forall given, given ∈ getUids strategy ->
      exists regExps, getCacheKeysRegexp strategy lower given (some ∅) true =
        Except.ok regExps)
    {params : RouteParams} {wildcard : Bool} {own : List Pattern}
    (hown : getCacheKeysRegexp strategy lower (some uid) (some params) wildcard =
      Except.ok own) :
    exists issued,
      (relatedSeen strategy).clearPatterns lower uid params wildcard =
          Except.ok issued ∧
        forall key, CacheStore.shouldDel issued key = true <->
          CacheStore.shouldDel own key = true ∨
            strategy.clearRelatedCache = true ∧
              exists related, related ∈ getRelatedCachedUid strategy (some uid) ∧
                isMatched strategy lower (some related) key = true := by
  have hfor : forall target (params : RouteParams) wildcard regExps,
      getCacheKeysRegexp strategy lower (some target) (some params) wildcard =
          Except.ok regExps ->
        (relatedSeen strategy).patternsFor lower target params wildcard =
          Except.ok regExps := by
    intro target params wildcard regExps hregExps
    unfold Config.RelatedStrategy.patternsFor
    rw [getCacheKeysRegexp_relatedSeen hnamed, hregExps]
    rfl
  unfold Config.RelatedStrategy.clearPatterns
  rw [if_pos ((isCached_relatedSeen hnamed).trans hcached), hfor _ _ _ _ hown,
    related_relatedSeen hnamed]
  show exists issued, (if strategy.clearRelatedCache = true then _ else _) = _ ∧ _
  by_cases hclear : strategy.clearRelatedCache = true
  · rw [if_pos hclear]
    have hrelated : forall target,
        target ∈ getRelatedCachedUid strategy (some uid) ->
        exists regExps, getCacheKeysRegexp strategy lower (some target) (some ∅)
            true = Except.ok regExps := by
      intro target htarget
      exact hreadable _ (mem_getUids_of_related htarget)
    rcases Config.wildcardPatterns_ok (fun target htarget => by
        rcases hrelated target htarget with ⟨regExps, hregExps⟩
        exact ⟨regExps, hfor _ _ _ _ hregExps⟩) with ⟨related, hissued, hmem⟩
    rw [hissued]
    refine ⟨own ++ related, rfl, ?_⟩
    intro key
    have hsplit : CacheStore.shouldDel (own ++ related) key = true <->
        CacheStore.shouldDel own key = true ∨
          CacheStore.shouldDel related key = true := by
      unfold CacheStore.shouldDel
      rw [List.any_append, Bool.or_eq_true]
    rw [hsplit]
    apply or_congr Iff.rfl
    rw [and_iff_right hclear]
    constructor
    · intro hkey
      rcases List.any_eq_true.mp hkey with ⟨regExp, hregExp, htest⟩
      rcases (hmem regExp).mp hregExp with ⟨target, regExps, htarget, hgiven, hin⟩
      rcases hrelated target htarget with ⟨given, hsame⟩
      rw [hfor _ _ _ _ hsame, Except.ok.injEq] at hgiven
      subst hgiven
      refine ⟨target, htarget, ?_⟩
      rw [isMatched_eq hsame]
      exact List.any_eq_true.mpr ⟨regExp, hin, htest⟩
    · intro h
      rcases h with ⟨target, htarget, hkey⟩
      rcases hrelated target htarget with ⟨regExps, hregExps⟩
      rw [isMatched_eq hregExps] at hkey
      rcases List.any_eq_true.mp hkey with ⟨regExp, hin, htest⟩
      exact List.any_eq_true.mpr ⟨regExp, (hmem regExp).mpr
        ⟨target, regExps, htarget, hfor _ _ _ _ hregExps, hin⟩, htest⟩
  · rw [if_neg hclear]
    refine ⟨own, rfl, ?_⟩
    intro key
    rw [or_iff_left (fun h => hclear h.left)]

theorem clearPatterns_wildcard (hnamed : Named strategy)
    (hcached : isCached strategy (some uid) = true)
    (hreadable : forall given, given ∈ getUids strategy ->
      exists regExps, getCacheKeysRegexp strategy lower given (some ∅) true =
        Except.ok regExps) :
    exists issued,
      (relatedSeen strategy).clearPatterns lower uid ∅ true = Except.ok issued ∧
        forall key, CacheStore.shouldDel issued key = true <->
          exists target, target ∈ purgedUids strategy uid ∧
            isMatched strategy lower (some target) key = true := by
  rcases hreadable _ (isCached_iff_mem_getUids.mp hcached) with ⟨own, hown⟩
  rcases clearPatterns_ok hnamed hcached hreadable hown with
    ⟨issued, hissued, hmatched⟩
  refine ⟨issued, hissued, ?_⟩
  intro key
  rw [hmatched, purgedUids, ← isMatched_eq hown]
  by_cases hclear : strategy.clearRelatedCache = true
  · rw [if_pos hclear, and_iff_right hclear, List.exists_mem_cons_iff]
  · rw [if_neg hclear, or_iff_left (fun h => hclear h.left),
      List.exists_mem_cons_iff, or_iff_left]
    rintro ⟨target, hnil, _⟩
    exact List.not_mem_nil hnil

end Reached

/-!
## Counting
-/

theorem length_filter_le_sum {α β : Type _} {test : β -> α -> Bool}
    {size : β -> Nat} {l : List α} (rows : List β) (q : α -> Bool)
    (hsize : forall row, row ∈ rows -> (l.filter (test row)).length ≤ size row)
    (hany : forall x, x ∈ l -> q x = true ->
      exists row, row ∈ rows ∧ test row x = true) :
    (l.filter q).length ≤ (rows.map size).sum := by
  induction rows generalizing q with
  | nil =>
      have hnone : l.filter q = [] := by
        apply List.filter_eq_nil_iff.mpr
        intro x hx hq
        rcases hany x hx hq with ⟨row, hrow, _⟩
        exact absurd hrow List.not_mem_nil
      rw [hnone]
      exact Nat.zero_le _
  | cons row rest ih =>
      have hrest := ih (fun x => q x && !test row x)
        (fun other hother => hsize other (List.mem_cons_of_mem row hother))
        (by
          intro x hx hq
          rcases Bool.and_eq_true_iff.mp hq with ⟨hqx, hnot⟩
          rcases hany x hx hqx with ⟨other, hother, htest⟩
          rcases List.mem_cons.mp hother with rfl | hother
          · rw [htest] at hnot
            exact absurd hnot Bool.false_ne_true
          · exact ⟨other, hother, htest⟩)
      have hfirst := hsize row List.mem_cons_self
      have hsplit : (l.filter q).length ≤ (l.filter (test row)).length +
          (l.filter (fun x => q x && !test row x)).length := by
        clear hsize hany ih hrest hfirst
        induction l with
        | nil => exact Nat.le_refl _
        | cons x l ih =>
            cases hq : q x <;> cases ht : test row x <;>
              simp [hq, ht] <;> omega
      rw [List.map_cons, List.sum_cons]
      omega

/-!
## The summary after a purge
-/

/-- How the summary before a purge of the content type and that after it differ. -/
structure PurgeShows (strategy : CachePluginStrategy Context) (uid : JsString)
    (before after : CacheSummary) : Prop where
  kept : after.provider = before.provider ∧ after.strategy = before.strategy ∧
    after.totals.contentTypes = before.totals.contentTypes
  rows : List.Forall₂ (fun row now =>
    now = { row with entries := now.entries } ∧ now.entries ≤ row.entries ∧
      row.entries + after.totals.entries ≤ now.entries + before.totals.entries)
    before.contentTypes after.contentTypes
  cleared : forall row, row ∈ after.contentTypes ->
    forall target, target ∈ purgedUids strategy uid ->
      row.uid = some target -> row.entries = 0
  bounded : before.totals.entries ≤ after.totals.entries +
    ((before.contentTypes.filter (fun row =>
      row.uid ∈ (purgedUids strategy uid).map some)).map
        ContentTypeStats.entries).sum
  alone : strategy.clearRelatedCache = false ->
    forall row, row ∈ before.contentTypes -> row.uid = some uid ->
      after.totals.entries + row.entries = before.totals.entries

section Shown

variable {strategy : CachePluginStrategy Context} {lower : CaseMapping}
  {providerName : Option JsString} {uid keysPrefix : JsString}

structure RowOf (strategy : CachePluginStrategy Context) (lower : CaseMapping)
    (entryKeys : List JsString) (given : Option JsString)
    (row : ContentTypeStats) : Prop where
  uid : row.uid = given
  entries : row.entries = (entryKeys.filter (isMatched strategy lower given)).length
  rest : row = { statsOf strategy [] given [] with entries := row.entries }

theorem contentTypeStats_ok {entryKeys : List JsString}
    {given : Option JsString} {row : ContentTypeStats} :
    contentTypeStats strategy lower entryKeys given = Except.ok row <->
      (exists regExps, getCacheKeysRegexp strategy lower given (some ∅) true =
        Except.ok regExps) ∧ RowOf strategy lower entryKeys given row := by
  unfold contentTypeStats
  rw [map_eq_ok]
  constructor
  · intro h
    rcases h with ⟨regExps, hregExps, hrow⟩
    refine ⟨⟨regExps, hregExps⟩, ?_⟩
    rw [← hrow]
    refine ⟨rfl, ?_, rfl⟩
    rw [isMatched_eq hregExps]
    rfl
  · intro h
    rcases h with ⟨⟨regExps, hregExps⟩, hrow⟩
    refine ⟨regExps, hregExps, ?_⟩
    rw [hrow.rest, hrow.entries, isMatched_eq hregExps]
    rfl

theorem summaryOf_ok {keys : List JsString} {before : CacheSummary} :
    summaryOf providerName strategy lower keys = Except.ok before <->
      (forall given, given ∈ getUids strategy ->
        exists regExps, getCacheKeysRegexp strategy lower given (some ∅) true =
          Except.ok regExps) ∧
      List.Forall₂ (RowOf strategy lower (entryKeysOf keys)) (getUids strategy)
        before.contentTypes ∧
      before = summaryWith providerName strategy keys before.contentTypes := by
  unfold summaryOf
  rw [map_eq_ok]
  constructor
  · intro h
    rcases h with ⟨rows, hrows, hbefore⟩
    have hrelated := mapM_eq_ok.mp hrows
    refine ⟨?_, ?_, ?_⟩
    · intro given hgiven
      rcases exists_related_left hrelated hgiven with ⟨row, _, hrow⟩
      exact (contentTypeStats_ok.mp hrow).left
    · rw [← hbefore]
      exact hrelated.imp (fun _ _ hrow => (contentTypeStats_ok.mp hrow).right)
    · rw [← hbefore]
      rfl
  · intro h
    rcases h with ⟨hreadable, hrows, hbefore⟩
    refine ⟨before.contentTypes, ?_, hbefore.symm⟩
    apply mapM_eq_ok.mpr
    have hboth := (List.forall₂_and_left (getUids strategy) _).mpr
      ⟨hreadable, hrows⟩
    exact hboth.imp (fun _ _ hrow => contentTypeStats_ok.mpr hrow)

theorem summaryOf_total (providerName : Option JsString)
    (hreadable : forall given, given ∈ getUids strategy ->
      exists regExps, getCacheKeysRegexp strategy lower given (some ∅) true =
        Except.ok regExps) (keys : List JsString) :
    exists after, summaryOf providerName strategy lower keys = Except.ok after := by
  have hrows : forall given, given ∈ getUids strategy ->
      exists row, contentTypeStats strategy lower (entryKeysOf keys) given =
        Except.ok row := by
    intro given hgiven
    rcases hreadable given hgiven with ⟨regExps, hregExps⟩
    exact ⟨_, map_eq_ok.mpr ⟨regExps, hregExps, rfl⟩⟩
  rcases mapM_ok hrows with ⟨rows, hrows, _⟩
  exact ⟨_, map_eq_ok.mpr ⟨rows, hrows, rfl⟩⟩

theorem entryKeysOf_filter (keys : List JsString) (p : JsString -> Bool) :
    entryKeysOf (keys.filter p) = (entryKeysOf keys).filter p := by
  unfold entryKeysOf
  rw [List.filter_filter, List.filter_filter]
  congr 1
  funext key
  exact Bool.and_comm _ _

theorem length_filter_split {α : Type _} (p : α -> Bool) (l : List α) :
    (l.filter (fun x => !p x)).length + (l.filter p).length = l.length := by
  rw [Nat.add_comm]
  exact (List.length_eq_length_filter_add p).symm

/-- A purge of these keys, seen in the counts before and after. -/
theorem purgeShows_of_rows {keys : List JsString} {before after : CacheSummary}
    {issued : List Pattern}
    (hcached : isCached strategy (some uid) = true)
    (hissued : forall key, CacheStore.shouldDel issued key = true <->
      exists target, target ∈ purgedUids strategy uid ∧
        isMatched strategy lower (some target) key = true)
    (hbefore : summaryOf providerName strategy lower keys = Except.ok before)
    (hafter : summaryOf providerName strategy lower
      (keys.filter (fun key => !CacheStore.shouldDel issued key)) =
        Except.ok after) :
    PurgeShows strategy uid before after := by
  rcases summaryOf_ok.mp hbefore with ⟨_, hrows, hbeforeIs⟩
  rcases summaryOf_ok.mp hafter with ⟨_, hnow, hafterIs⟩
  rw [entryKeysOf_filter] at hnow
  have htotal : before.totals.entries = (entryKeysOf keys).length := by
    rw [hbeforeIs]
    rfl
  have htotalNow : after.totals.entries = ((entryKeysOf keys).filter
      (fun key => !CacheStore.shouldDel issued key)).length := by
    rw [← entryKeysOf_filter, hafterIs]
    rfl
  have hdropped := length_filter_split (CacheStore.shouldDel issued)
    (entryKeysOf keys)
  have hrelated := related_through hrows.flip hnow
  refine ⟨⟨?_, ?_, ?_⟩, ?_, ?_, ?_, ?_⟩
  · rw [hafterIs, hbeforeIs]
    rfl
  · rw [hafterIs, hbeforeIs]
    rfl
  · rw [hafterIs, hbeforeIs]
    show after.contentTypes.length = before.contentTypes.length
    rw [← hrows.length_eq, ← hnow.length_eq]
  · apply hrelated.imp
    intro row now hpair
    rcases hpair with ⟨given, hrow, hnow⟩
    have hlost := length_filter_split (CacheStore.shouldDel issued)
      ((entryKeysOf keys).filter (isMatched strategy lower given))
    have hfewer : (((entryKeysOf keys).filter (isMatched strategy lower given)).filter
        (CacheStore.shouldDel issued)).length ≤
          ((entryKeysOf keys).filter (CacheStore.shouldDel issued)).length := by
      rw [List.filter_comm]
      exact List.length_filter_le _ _
    have hentries := hnow.entries
    rw [List.filter_comm] at hentries
    refine ⟨?_, ?_, ?_⟩
    · rw [hnow.rest, hrow.rest]
    · rw [hentries, hrow.entries]
      exact List.length_filter_le _ _
    · rw [htotal, htotalNow, hentries, hrow.entries]
      omega
  · intro row hrow target htarget huid
    rcases exists_related_right hnow hrow with ⟨given, _, hgiven⟩
    rw [hgiven.uid] at huid
    subst huid
    rw [hgiven.entries, List.length_eq_zero_iff, List.filter_eq_nil_iff]
    intro key hkey hmatched
    have hkept := (List.mem_filter.mp hkey).right
    rw [(hissued key).mpr ⟨target, htarget, hmatched⟩] at hkept
    exact Bool.false_ne_true hkept
  · have hsize : forall row, row ∈ before.contentTypes ->
        ((entryKeysOf keys).filter (isMatched strategy lower row.uid)).length ≤
          row.entries := by
      intro row hrow
      rcases exists_related_right hrows hrow with ⟨given, _, hgiven⟩
      rw [hgiven.uid, hgiven.entries]
    have hany : forall key, CacheStore.shouldDel issued key = true ->
        exists row, row ∈ before.contentTypes.filter (fun row =>
            row.uid ∈ (purgedUids strategy uid).map some) ∧
          isMatched strategy lower row.uid key = true := by
      intro key hdel
      rcases (hissued key).mp hdel with ⟨target, htarget, hmatched⟩
      have hlisted := mem_getUids_of_purged hcached htarget
      rcases exists_related_left hrows hlisted with ⟨row, hrow, hgiven⟩
      rw [← hgiven.uid] at hmatched
      refine ⟨row, List.mem_filter.mpr ⟨hrow, ?_⟩, hmatched⟩
      rw [hgiven.uid]
      exact decide_eq_true (List.mem_map_of_mem htarget)
    have hsum := length_filter_le_sum _ (CacheStore.shouldDel issued)
      (fun row hrow => hsize row (List.mem_filter.mp hrow).left)
      (fun key _ => hany key)
    omega
  · intro halone row hrow huid
    rcases exists_related_right hrows hrow with ⟨given, _, hgiven⟩
    rw [hgiven.uid] at huid
    subst huid
    have hsame : isMatched strategy lower (some uid) =
        CacheStore.shouldDel issued := by
      funext key
      apply Bool.eq_iff_iff.mpr
      rw [hissued, purgedUids, halone]
      simp
    rw [htotal, htotalNow, hgiven.entries, hsame]
    exact hdropped

end Shown

section Purge

variable {strategy : CachePluginStrategy Context} {lower : CaseMapping}
  {providerName : Option JsString} {uid keysPrefix : JsString}
  {s : State Keyspace} {before : CacheSummary}

theorem summary_eq_ok {now : CacheSummary} :
    summary providerName strategy lower (prefixed keysPrefix) keyspace s =
        (Except.ok now, s) <->
      summaryOf providerName strategy lower
        ((prefixed keysPrefix).logicalKeys s.held.keys) = Except.ok now := by
  have hsummary : summary providerName strategy lower (prefixed keysPrefix)
      keyspace s =
        ((summaryOf providerName strategy lower
          ((prefixed keysPrefix).logicalKeys s.held.keys)).mapError
            (fun e => Rejection.clear (ClearError.invalidPattern e)), s) := rfl
  rw [hsummary]
  cases summaryOf providerName strategy lower
      ((prefixed keysPrefix).logicalKeys s.held.keys) with
  | error e => simp [Except.mapError]
  | ok given => simp [Except.mapError]

theorem purge_done (huid : uid ≠ [])
    (hcached : isCached strategy (some uid) = true) {params : RouteParams}
    {wildcard : Bool} {issued : List Pattern}
    (hissued : (relatedSeen strategy).clearPatterns lower uid params wildcard =
      Except.ok issued) :
    purge strategy lower (prefixed keysPrefix) keyspace
        (some (PurgeRequestBody.mk (some uid) (some params) (some wildcard))) s =
      (PurgeResponse.done,
        ((prefixed keysPrefix).clearByRegexp keyspace issued s).2) := by
  have hgiven : (some uid).filter (fun uid => uid ≠ []) = some uid := by
    simp [huid]
  have hclear : (prefixed keysPrefix).clearByUid keyspace (relatedSeen strategy)
      lower uid params wildcard s =
        (prefixed keysPrefix).clearByRegexp keyspace issued s := by
    unfold CacheStore.clearByUid
    rw [hissued]
    rfl
  have hresolves : ((prefixed keysPrefix).clearByRegexp keyspace issued s).1.isOk =
      true :=
    CacheStore.delMany_resolves _ _
  unfold purge
  simp only [Option.getD_some, hgiven, hcached, if_true, hclear]
  cases hanswer : ((prefixed keysPrefix).clearByRegexp keyspace issued s).1 with
  | error e =>
      rw [hanswer] at hresolves
      exact absurd hresolves Bool.false_ne_true
  | ok given => rfl

/--
A purge from the dashboard answers, and the summary after it shows the content
type, and all that are cleared with it, without entries; the total drops by no
more than their counts.
-/
theorem handlePurge_shows (hnamed : Named strategy) (huid : uid ≠ [])
    (hcached : isCached strategy (some uid) = true)
    (hbefore : summary providerName strategy lower (prefixed keysPrefix)
      keyspace s = (Except.ok before, s)) :
    exists after s',
      purge strategy lower (prefixed keysPrefix) keyspace
          (some (handlePurge uid)) s = (PurgeResponse.done, s') ∧
        summary providerName strategy lower (prefixed keysPrefix) keyspace s' =
          (Except.ok after, s') ∧
        PurgeShows strategy uid before after := by
  have hkeys := summary_eq_ok.mp hbefore
  rcases summaryOf_ok.mp hkeys with ⟨hreadable, _, _⟩
  rcases clearPatterns_wildcard hnamed hcached hreadable with
    ⟨issued, hissued, hmatched⟩
  rcases summaryOf_total providerName hreadable
      (((prefixed keysPrefix).logicalKeys s.held.keys).filter
        (fun key => !CacheStore.shouldDel issued key)) with ⟨after, hafter⟩
  refine ⟨after, ((prefixed keysPrefix).clearByRegexp keyspace issued s).2,
    purge_done huid hcached hissued, ?_, ?_⟩
  · rw [summary_eq_ok, logicalKeys_clearByRegexp]
    exact hafter
  · exact purgeShows_of_rows hcached hmatched hkeys hafter

end Purge

/-!
## An example
-/

def newsHeld : State Keyspace where
  log := PurgeLog.init
  held := ((AList.singleton "b/api/articles?".toList []).insert
    "b/api/articles?_etag".toList []).insert "b/api/users?".toList []

def newsSummary : Except RegExpSource.Unreadable CacheSummary :=
  summaryOf none (Boot.newsStrategy false) CaseMapping.latin1
    ((prefixed "b".toList).logicalKeys newsHeld.held.keys)

theorem handlePurge_shows_news :
    exists before, newsSummary = Except.ok before ∧
      before.totals.entries = 2 ∧ exists after s',
        purge (Boot.newsStrategy false) CaseMapping.latin1 (prefixed "b".toList)
            keyspace (some (handlePurge "api::article.article".toList)) newsHeld =
          (PurgeResponse.done, s') ∧
        summary none (Boot.newsStrategy false) CaseMapping.latin1
            (prefixed "b".toList) keyspace s' = (Except.ok after, s') ∧
          PurgeShows (Boot.newsStrategy false) "api::article.article".toList
            before after := by
  have htotal : (newsSummary.toOption.map
      (fun before => before.totals.entries)) = some 2 := by
    decide +kernel
  cases hbefore : newsSummary with
  | error e =>
      rw [hbefore] at htotal
      cases htotal
  | ok before =>
      rw [hbefore] at htotal
      exact ⟨before, rfl, Option.some.inj htotal,
        handlePurge_shows (fun cacheConf hmem => by
          rcases List.mem_cons.mp hmem with rfl | hmem
          · exact ⟨_, rfl⟩
          · rw [List.mem_singleton.mp hmem]
            exact ⟨_, rfl⟩) (by decide) (by decide) (summary_eq_ok.mpr hbefore)⟩

end Store
end RestCache
