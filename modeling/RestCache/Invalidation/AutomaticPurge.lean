import RestCache.Store.PrefixIsolation

/-!
# Writes that purge automatically

The document service middleware, the database lifecycle purge and the two legacy
route middlewares.  A purge runs after the write it belongs to, and the question
is whether a failing provider can change how the write ends.
-/

namespace RestCache
namespace Invalidation

open Foundation
open Config
open Store
open CacheStore (KeysReject)

/-!
## The middlewares
-/

/-- How a write ends badly: by its own error, or by that of its purge. -/
inductive WriteError (E : Type) where
  | own (e : E)
  | purge (r : Rejection)
deriving DecidableEq

def WRITE_ACTIONS : List JsString :=
  ["create".toList, "clone".toList, "update".toList, "delete".toList,
    "publish".toList, "unpublish".toList, "discardDraft".toList]

def WRITE_LIFECYCLES : List JsString :=
  ["afterCreate".toList, "afterCreateMany".toList, "afterUpdate".toList,
    "afterUpdateMany".toList, "afterDelete".toList, "afterDeleteMany".toList]

structure DocumentServiceContext where
  action : JsString
  uid : JsString
  documentId : Option JsString
deriving DecidableEq

structure LifecycleEvent where
  action : JsString
  uid : JsString
  count : Option Nat
deriving DecidableEq

/-- The id the purge is scoped to; an empty one counts as missing. -/
def resolveDocumentId (ctx : DocumentServiceContext)
    (resultId : Option JsString) : Option JsString :=
  if ctx.action = "create".toList ∨ ctx.action = "clone".toList then
    resultId.filter (fun id => id ≠ [])
  else
    ctx.documentId.filter (fun id => id ≠ [])

/-- `status >= 200 && status <= 300` -/
def isPurgedStatus (status : Nat) : Bool :=
  200 ≤ status && status ≤ 300

section Middlewares

variable {σ E R : Type} (strategy : RelatedStrategy) (lower : CaseMapping)
  (self : CacheStore) (provider : CacheProvider σ)

/-- A purge in a `try` whose `catch` logs. -/
def guarded (result : R) (purged : Settled (Option Unit) × State σ) :
    Except (WriteError E) R × State σ :=
  (Except.ok result, purged.2)

/-- A purge that is awaited without a `try`. -/
def unguarded (result : R) (purged : Settled (Option Unit) × State σ) :
    Except (WriteError E) R × State σ :=
  match purged.1 with
  | Except.ok _ => (Except.ok result, purged.2)
  | Except.error r => (Except.error (WriteError.purge r), purged.2)

/-- `documentId ? { id: documentId } : {}` -/
def scopeOf (documentId : Option JsString) : RouteParams :=
  match documentId with
  | some id => AList.singleton "id".toList id
  | none => ∅

/-- What a document service write purges by, if at all; `embedding` lists the
cached content types that can embed an uncached one. -/
def documentPatterns (embedding : JsString -> List JsString)
    (ctx : DocumentServiceContext) (resultId : Option JsString) :
    Option (Except ClearError (List Pattern)) :=
  if strategy.isCached ctx.uid then
    let documentId := resolveDocumentId ctx resultId
    some (strategy.clearPatterns lower ctx.uid (scopeOf documentId)
      documentId.isNone)
  else if strategy.clearRelatedCache = false ∨ embedding ctx.uid = [] then
    none
  else
    some (strategy.wildcardPatterns lower (embedding ctx.uid))

def documentServiceMiddleware (embedding : JsString -> List JsString)
    (resultId : R -> Option JsString) (ctx : DocumentServiceContext)
    (next : Except E R) (s : State σ) : Except (WriteError E) R × State σ :=
  match next with
  | Except.error e => (Except.error (WriteError.own e), s)
  | Except.ok result =>
      if ctx.action ∉ WRITE_ACTIONS then
        (Except.ok result, s)
      else
        match documentPatterns strategy lower embedding ctx (resultId result) with
        | none => (Except.ok result, s)
        | some patterns =>
            guarded result (self.clearByPatterns provider patterns s)

def lifecycleModels : List JsString :=
  (strategy.contentTypes.map CacheContentTypeConfig.contentType).filter
    (fun uid => "plugin::".toList.isPrefixOf uid)

def touchedNothing (event : LifecycleEvent) : Bool :=
  "Many".toList.isSuffixOf event.action && event.count = some 0

/-- The event is subscribed to, and no document service write purges for it. -/
def lifecyclePurges (inProgress : JsString -> Bool) (event : LifecycleEvent) :
    Bool :=
  event.uid ∈ lifecycleModels strategy && event.action ∈ WRITE_LIFECYCLES &&
    !(inProgress event.uid || !strategy.isCached event.uid) &&
      !touchedNothing event

def databaseWrite (inProgress : JsString -> Bool) (event : LifecycleEvent)
    (next : Except E R) (s : State σ) : Except (WriteError E) R × State σ :=
  match next with
  | Except.error e => (Except.error (WriteError.own e), s)
  | Except.ok result =>
      if lifecyclePurges strategy inProgress event then
        guarded result
          (self.clearByUid provider strategy lower event.uid ∅ true s)
      else
        (Except.ok result, s)

def purge (contentType : JsString) (params : RouteParams) (status : R -> Nat)
    (next : Except E R) (s : State σ) : Except (WriteError E) R × State σ :=
  match next with
  | Except.error e => (Except.error (WriteError.own e), s)
  | Except.ok response =>
      if isPurgedStatus (status response) then
        unguarded response
          (self.clearByUid provider strategy lower contentType params false s)
      else
        (Except.ok response, s)

/-- The content type is the parameter `model` of the route. -/
def purgeAdmin (params : RouteParams) (status : R -> Nat) (next : Except E R)
    (s : State σ) : Except (WriteError E) R × State σ :=
  match (params.lookup "model".toList).filter
      (fun uid => uid ≠ [] && strategy.isCached uid) with
  | none => (next.mapError WriteError.own, s)
  | some uid =>
      purge strategy lower self provider uid (params.erase "model".toList)
        status next s

end Middlewares

/-!
## Writes
-/

inductive Write (E R : Type) where
  | document (embedding : JsString -> List JsString)
      (resultId : R -> Option JsString) (ctx : DocumentServiceContext)
      (next : Except E R)
  | database (inProgress : JsString -> Bool) (event : LifecycleEvent)
      (next : Except E R)
  | routed (contentType : JsString) (params : RouteParams) (status : R -> Nat)
      (next : Except E R)
  | admin (params : RouteParams) (status : R -> Nat) (next : Except E R)

section Writes

variable {E R : Type} (strategy : RelatedStrategy) (lower : CaseMapping)

def Write.outcome {σ : Type} (self : CacheStore) (provider : CacheProvider σ)
    (s : State σ) : Write E R -> Except (WriteError E) R
  | Write.document embedding resultId ctx next =>
      (documentServiceMiddleware strategy lower self provider embedding resultId
        ctx next s).1
  | Write.database inProgress event next =>
      (databaseWrite strategy lower self provider inProgress event next s).1
  | Write.routed contentType params status next =>
      (purge strategy lower self provider contentType params status next s).1
  | Write.admin params status next =>
      (purgeAdmin strategy lower self provider params status next s).1

/-- A response with a status that purges, and patterns to purge by. -/
def PurgesRouted (contentType : JsString) (params : RouteParams) (status : R -> Nat)
    (next : Except E R) : Prop :=
  exists response regExps, next = Except.ok response ∧
    isPurgedStatus (status response) = true ∧
      strategy.clearPatterns lower contentType params false = Except.ok regExps

/-- The write is purged by a route middleware. -/
def Write.PurgedByRoute : Write E R -> Prop
  | Write.document _ _ _ _ => False
  | Write.database _ _ _ => False
  | Write.routed contentType params status next =>
      PurgesRouted strategy lower contentType params status next
  | Write.admin params status next =>
      exists uid, params.lookup "model".toList = some uid ∧ uid ≠ [] ∧
        strategy.isCached uid = true ∧
          PurgesRouted strategy lower uid (params.erase "model".toList) status next

end Writes

structure NeverFails {σ : Type} (provider : CacheProvider σ) : Prop where
  get : forall key held, exists a, (provider.get key held).1 = Answer.value a
  set : forall key val maxAge held,
    exists a, (provider.set key val maxAge held).1 = Answer.value a
  del : forall key held, exists a, (provider.del key held).1 = Answer.value a
  delMany : forall keys held,
    exists a, (provider.delMany keys held).1 = Answer.value a
  keys : forall keysPrefix held,
    exists a, (provider.keys keysPrefix held).1 = Answer.value a
  clear : forall held, exists a, (provider.clear held).1 = Answer.value a

theorem keyspace_neverFails : NeverFails keyspace where
  get _ _ := ⟨_, rfl⟩
  set _ _ _ _ := ⟨_, rfl⟩
  del _ _ := ⟨_, rfl⟩
  delMany _ _ := ⟨_, rfl⟩
  keys _ _ := ⟨_, rfl⟩
  clear _ := ⟨_, rfl⟩

/-- The write ends as it does with any provider that never fails. -/
def EndsAlike {σ E R : Type} (strategy : RelatedStrategy) (lower : CaseMapping)
    (self : CacheStore) (provider : CacheProvider σ) (s : State σ)
    (w : Write E R) : Prop :=
  forall (τ : Type) (good : CacheProvider τ) (t : State τ), NeverFails good ->
    w.outcome strategy lower self provider s =
      w.outcome strategy lower self good t

/-!
## How writes end
-/

section Outcomes

variable {E R : Type} (strategy : RelatedStrategy) (lower : CaseMapping)

def routedBaseline (contentType : JsString) (params : RouteParams)
    (status : R -> Nat) (next : Except E R) : Except (WriteError E) R :=
  match next with
  | Except.error e => Except.error (WriteError.own e)
  | Except.ok response =>
      if isPurgedStatus (status response) then
        match strategy.clearPatterns lower contentType params false with
        | Except.error e => Except.error (WriteError.purge (Rejection.clear e))
        | Except.ok _ => Except.ok response
      else
        Except.ok response

def Write.baseline : Write E R -> Except (WriteError E) R
  | Write.document _ _ _ next => next.mapError WriteError.own
  | Write.database _ _ next => next.mapError WriteError.own
  | Write.routed contentType params status next =>
      routedBaseline strategy lower contentType params status next
  | Write.admin params status next =>
      match (params.lookup "model".toList).filter
          (fun uid => uid ≠ [] && strategy.isCached uid) with
      | none => next.mapError WriteError.own
      | some uid =>
          routedBaseline strategy lower uid (params.erase "model".toList) status
            next

end Outcomes

section Outcomes

variable {σ E R : Type} {strategy : RelatedStrategy} {lower : CaseMapping}
  {self : CacheStore} {provider : CacheProvider σ}

theorem document_outcome (embedding : JsString -> List JsString)
    (resultId : R -> Option JsString) (ctx : DocumentServiceContext)
    (next : Except E R) (s : State σ) :
    (documentServiceMiddleware strategy lower self provider embedding resultId
      ctx next s).1 = next.mapError WriteError.own := by
  cases next with
  | error e => rfl
  | ok result =>
      unfold documentServiceMiddleware
      simp only
      split
      · rfl
      · split
        · rfl
        · rfl

theorem database_outcome (inProgress : JsString -> Bool)
    (event : LifecycleEvent) (next : Except E R) (s : State σ) :
    (databaseWrite strategy lower self provider inProgress event next s).1 =
      next.mapError WriteError.own := by
  cases next with
  | error e => rfl
  | ok result =>
      show (ite _ _ _ : Except (WriteError E) R × State σ).1 = _
      split
      · rfl
      · rfl

theorem unguarded_clear (response : R) (regExps : List Pattern) (s : State σ) :
    (KeysReject self provider s.held ∧
      (unguarded (E := E) response (self.clearByRegexp provider regExps s)).1 =
        Except.error (WriteError.purge Rejection.provider)) ∨
    (¬ KeysReject self provider s.held ∧
      (unguarded (E := E) response (self.clearByRegexp provider regExps s)).1 =
        Except.ok response) := by
  rcases @CacheStore.clearByRegexp_settles σ self provider regExps s with
    ⟨hreject, hsettled⟩ | ⟨hreject, hsettled⟩
  · refine Or.inl ⟨hreject, ?_⟩
    rw [unguarded, hsettled]
  · refine Or.inr ⟨hreject, ?_⟩
    cases hresult : (self.clearByRegexp provider regExps s).1 with
    | error r => simp [hresult, Except.isOk, Except.toBool] at hsettled
    | ok cleared => rw [unguarded, hresult]

theorem purge_outcome (contentType : JsString) (params : RouteParams)
    (status : R -> Nat) (next : Except E R) (s : State σ) :
    ((PurgesRouted strategy lower contentType params status next ∧
        KeysReject self provider s.held) ∧
      (purge strategy lower self provider contentType params status next s).1 =
        Except.error (WriteError.purge Rejection.provider)) ∨
    (¬ (PurgesRouted strategy lower contentType params status next ∧
        KeysReject self provider s.held) ∧
      (purge strategy lower self provider contentType params status next s).1 =
        routedBaseline strategy lower contentType params status next) := by
  cases next with
  | error e =>
      refine Or.inr ⟨?_, rfl⟩
      intro hboth
      rcases hboth.left with ⟨response, _, hnext, _⟩
      exact absurd hnext (by simp)
  | ok response =>
      by_cases hstatus : isPurgedStatus (status response) = true
      · have hpurge : purge (E := E) strategy lower self provider contentType
            params status (Except.ok response) s =
              unguarded response (self.clearByUid provider strategy lower
                contentType params false s) :=
          if_pos hstatus
        have hbaseline : routedBaseline (E := E) strategy lower contentType
            params status (Except.ok response) =
              match strategy.clearPatterns lower contentType params false with
              | Except.error e =>
                  Except.error (WriteError.purge (Rejection.clear e))
              | Except.ok _ => Except.ok response :=
          if_pos hstatus
        rw [hpurge, hbaseline, CacheStore.clearByUid]
        cases hpatterns : strategy.clearPatterns lower contentType params false with
        | error e =>
            refine Or.inr ⟨?_, rfl⟩
            intro hboth
            rcases hboth.left with ⟨_, regExps, _, _, hok⟩
            rw [hpatterns] at hok
            exact absurd hok (by simp)
        | ok regExps =>
            have hrouted : PurgesRouted (E := E) strategy lower contentType
                params status (Except.ok response) :=
              ⟨response, regExps, rfl, hstatus, hpatterns⟩
            rcases @unguarded_clear σ E R self provider response regExps s with
              ⟨hreject, houtcome⟩ | ⟨hreject, houtcome⟩
            · exact Or.inl ⟨⟨hrouted, hreject⟩, houtcome⟩
            · exact Or.inr ⟨fun hboth => hreject hboth.right, houtcome⟩
      · have hpurge : purge (E := E) strategy lower self provider contentType
            params status (Except.ok response) s = (Except.ok response, s) :=
          if_neg hstatus
        have hbaseline : routedBaseline (E := E) strategy lower contentType
            params status (Except.ok response) = Except.ok response :=
          if_neg hstatus
        rw [hpurge, hbaseline]
        refine Or.inr ⟨?_, rfl⟩
        intro hboth
        rcases hboth.left with ⟨other, _, hother, hpurged, _⟩
        rw [Except.ok.injEq] at hother
        subst hother
        exact hstatus hpurged

theorem admin_model (params : RouteParams) (uid : JsString) :
    (params.lookup "model".toList).filter
        (fun uid => uid ≠ [] && strategy.isCached uid) = some uid <->
      params.lookup "model".toList = some uid ∧ uid ≠ [] ∧
        strategy.isCached uid = true := by
  rw [Option.filter_eq_some_iff]
  simp

/-- Every write ends by a rejection or as it does without a failure. -/
theorem write_outcome (w : Write E R) (s : State σ) :
    ((w.PurgedByRoute strategy lower ∧ KeysReject self provider s.held) ∧
      w.outcome strategy lower self provider s =
        Except.error (WriteError.purge Rejection.provider)) ∨
    (¬ (w.PurgedByRoute strategy lower ∧ KeysReject self provider s.held) ∧
      w.outcome strategy lower self provider s = w.baseline strategy lower) := by
  cases w with
  | document embedding resultId ctx next =>
      exact Or.inr ⟨fun hboth => hboth.left, document_outcome _ _ _ _ _⟩
  | database inProgress event next =>
      exact Or.inr ⟨fun hboth => hboth.left, database_outcome _ _ _ _⟩
  | routed contentType params status next =>
      exact purge_outcome contentType params status next s
  | admin params status next =>
      cases hmodel : (params.lookup "model".toList).filter
          (fun uid => uid ≠ [] && strategy.isCached uid) with
      | none =>
          refine Or.inr ⟨?_, ?_⟩
          · intro hboth
            rcases hboth.left with ⟨uid, hlookup, hne, hcached, _⟩
            rw [(admin_model params uid).mpr ⟨hlookup, hne, hcached⟩] at hmodel
            exact absurd hmodel (by simp)
          · simp only [Write.outcome, Write.baseline, purgeAdmin, hmodel]
      | some uid =>
          have hgiven := (admin_model params uid).mp hmodel
          have hrouted : Write.PurgedByRoute strategy lower
              (Write.admin params status next) <->
                PurgesRouted strategy lower uid (params.erase "model".toList)
                  status next := by
            constructor
            · intro h
              rcases h with ⟨other, hlookup, _, _, hrouted⟩
              rw [hgiven.left, Option.some.injEq] at hlookup
              subst hlookup
              exact hrouted
            · exact fun h => ⟨uid, hgiven.left, hgiven.right.left,
                hgiven.right.right, h⟩
          rw [hrouted]
          have hpurge := @purge_outcome σ E R strategy lower self provider uid
            (params.erase "model".toList) status next s
          simpa only [Write.outcome, Write.baseline, purgeAdmin, hmodel]
            using hpurge

theorem baseline_of_purged {w : Write E R}
    (h : w.PurgedByRoute strategy lower) :
    exists response, w.baseline strategy lower = Except.ok response := by
  have hrouted : forall contentType params status next,
      PurgesRouted (E := E) (R := R) strategy lower contentType params status next ->
        exists response, routedBaseline strategy lower contentType params status
          next = Except.ok response := by
    intro contentType params status next hgiven
    rcases hgiven with ⟨response, regExps, hnext, hstatus, hpatterns⟩
    subst hnext
    refine ⟨response, ?_⟩
    rw [routedBaseline, if_pos hstatus, hpatterns]
  cases w with
  | document embedding resultId ctx next => exact absurd h id
  | database inProgress event next => exact absurd h id
  | routed contentType params status next => exact hrouted _ _ _ _ h
  | admin params status next =>
      rcases h with ⟨uid, hlookup, hne, hcached, h⟩
      have hmodel := (admin_model params uid).mpr ⟨hlookup, hne, hcached⟩
      simp only [Write.baseline, hmodel]
      exact hrouted _ _ _ _ h

theorem not_keysReject {τ : Type} {good : CacheProvider τ}
    (h : NeverFails good) (held : τ) : ¬ KeysReject self good held := by
  intro hreject
  rcases h.keys self.keysPrefix held with ⟨a, ha⟩
  have hrejected := hreject.right.right
  rw [ha] at hrejected
  exact absurd hrejected (by simp)

theorem outcome_of_neverFails {τ : Type} {good : CacheProvider τ}
    (h : NeverFails good) (w : Write E R) (t : State τ) :
    w.outcome strategy lower self good t = w.baseline strategy lower := by
  rcases @write_outcome τ E R strategy lower self good w t with
    ⟨hboth, _⟩ | ⟨_, houtcome⟩
  · exact absurd hboth.right (not_keysReject h t.held)
  · exact houtcome

end Outcomes

/--
A failing provider changes how a write ends exactly where a route middleware
purges for it and the listing of the keys returns a promise that rejects.
-/
theorem endsAlike_iff {σ E R : Type} (strategy : RelatedStrategy)
    (lower : CaseMapping) (self : CacheStore) (provider : CacheProvider σ)
    (s : State σ) (w : Write E R) :
    EndsAlike strategy lower self provider s w <->
      ¬ (w.PurgedByRoute strategy lower ∧
        KeysReject self provider s.held) := by
  rcases @write_outcome σ E R strategy lower self provider w s with
    ⟨hboth, houtcome⟩ | ⟨hneither, houtcome⟩
  · constructor
    · intro h
      have hgood := h Keyspace keyspace { log := PurgeLog.init, held := ∅ }
        keyspace_neverFails
      rw [houtcome, outcome_of_neverFails keyspace_neverFails] at hgood
      rcases baseline_of_purged hboth.left with ⟨response, hresponse⟩
      rw [hresponse] at hgood
      exact absurd hgood (by simp)
    · exact fun h => absurd hboth h
  · constructor
    · exact fun _ => hneither
    · intro _ τ good t hgood
      rw [houtcome, outcome_of_neverFails hgood]

/-!
## An example
-/

def articleStrategy : RelatedStrategy where
  enableDocumentServiceMiddleware := false
  contentTypes :=
    [{ contentType := "api::article.article".toList
       routes :=
         [{ path := "/api/articles".toList
            method := "GET".toList
            paramNames := [] }] }]
  clearRelatedCache := false
  relatedContentTypeUid _ := []

def unlisted : CacheProvider Keyspace :=
  { keyspace with keys := fun _ held => (Answer.rejected, held) }

def deleted : Write Unit Nat :=
  Write.routed "api::article.article".toList ∅ id (Except.ok 200)

/-- The deletion's response is lost to the purge behind it. -/
theorem not_endsAlike_unlisted :
    ¬ EndsAlike articleStrategy CaseMapping.latin1 (prefixed []) unlisted
        { log := PurgeLog.init, held := ∅ } deleted := by
  intro h
  have hgood := h Keyspace keyspace { log := PurgeLog.init, held := ∅ }
    keyspace_neverFails
  exact absurd hgood (by decide)

end Invalidation
end RestCache
