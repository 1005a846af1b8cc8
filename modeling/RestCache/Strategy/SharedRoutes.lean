import RestCache.Strategy.InheritedHitpass

/-!
# Routes that are shared across callers

The boot warning and the dashboard go by a route's resolved hitpass, which must be
the value false.  A listed route below two settings that are both false has a
function for its hitpass, which never bypasses either.
-/

namespace RestCache
namespace Strategy

open Foundation

variable {Context : Type _}

/-- Every request is looked up, under a key that does not name the caller. -/
def Shared (route : CacheRouteConfig Context) : Prop :=
  (forall ctx, shouldLookup ctx (some route.hitpass) = Except.ok true) ∧
    route.keys.useAuth.truthy = false

/-- What is reported of a GET route is whether it is shared. -/
def Agrees (route : CacheRouteConfig Context) : Prop :=
  route.method = HttpMethod.GET ->
    (isUnkeyedAuthenticatedRoute route = true <-> Shared route)

def ReportsShared (resolved : Resolved Context) : Prop :=
  forall contentType, contentType ∈ resolved.strategy.contentTypes ->
    forall route, route ∈ contentType.routes -> Agrees route

def IsBoolean (hitpass : Option (Hitpass Context)) : Prop :=
  forall h, hitpass = some h -> exists b, h = Hitpass.bool b

section Settings

variable (userOptions : CachePluginStrategyInput Context)

/-- Hitpasses are absent or booleans, and the strategy sets one. -/
structure BooleanHitpasses : Prop where
  strategy : exists b, userOptions.hitpass.get? = some (Hitpass.bool b)
  contentType : forall entry, entry ∈ userOptions.contentTypes.getD [] ->
    IsBoolean entry.ownHitpass
  route : forall entry : CacheContentTypeConfigInput Context,
    ContentTypeInput.options entry ∈ userOptions.contentTypes.getD [] ->
      forall given, given ∈ entry.routes.getD [] -> IsBoolean given.ownHitpass

/--
A GET route that sets no hitpass and whose keys do not name the caller is listed
below a strategy and a content type that both set false.
-/
structure Overlooked (entry : CacheContentTypeConfigInput Context)
    (given : RouteInput Context) : Prop where
  entry_mem : ContentTypeInput.options entry ∈ userOptions.contentTypes.getD []
  given_mem : given ∈ entry.routes.getD []
  strategy : userOptions.hitpass.get? = some (Hitpass.bool false)
  contentType : entry.hitpass.get? = some (Hitpass.bool false)
  method : given.ownMethod.getD HttpMethod.GET = HttpMethod.GET
  hitpass : given.ownHitpass = none
  keys : (given.keysUnder
    (entry.inherited userOptions).contentTypeKeys).useAuth.truthy = false

end Settings

/-!
## One route
-/

section Route

variable {route : CacheRouteConfig Context}

theorem agrees_bool [Nonempty Context] {b : Bool}
    (h : route.hitpass = Hitpass.bool b) : Agrees route := by
  intro hmethod
  rw [isUnkeyedAuthenticatedRoute, Shared, hmethod, h]
  cases b with
  | false => simp [shouldLookup]
  | true => simp [shouldLookup]

theorem isUnkeyedAuthenticatedRoute_function {f : Context -> Awaited Bool}
    (h : route.hitpass = Hitpass.function f) :
    isUnkeyedAuthenticatedRoute route = false := by
  simp [isUnkeyedAuthenticatedRoute, h]

theorem agrees_function {f : Context -> Awaited Bool}
    (h : route.hitpass = Hitpass.function f) (hmethod : route.method = HttpMethod.GET) :
    Agrees route <-> ¬ Shared route := by
  rw [Agrees, isUnkeyedAuthenticatedRoute_function h]
  simp [hmethod]

end Route

/-!
## Listed routes
-/

section Listed

variable {inherited : Inherited Context} {given : RouteInput Context}
  {route : CacheRouteConfig Context} {strategyHitpass : Bool}

theorem shared_listed [Nonempty Context] {contentTypeHitpass : Bool}
    (h : ResolvesListed inherited given route)
    (hstrategy : inherited.strategyHitpass = some (Hitpass.bool strategyHitpass))
    (hcontentType : inherited.contentTypeHitpass =
      some (Hitpass.bool contentTypeHitpass))
    (hown : given.ownHitpass = none)
    (hauth : route.keys.useAuth ≠ UseAuth.bool true) :
    (exists f, route.hitpass = Hitpass.function f) ∧
      (Shared route <-> strategyHitpass = false ∧ contentTypeHitpass = false ∧
        route.keys.useAuth.truthy = false) := by
  have hhitpass : route.hitpass = Hitpass.function fun ctx =>
      eitherBypasses (shouldLookup ctx (some (Hitpass.bool strategyHitpass)))
        (shouldLookup ctx (some (Hitpass.bool contentTypeHitpass))) := by
    rw [h.hitpass, hown, Option.none_or, hstrategy, hcontentType,
      listedRouteHitpass]
    simp only [if_neg hauth, Option.getD_some]
  refine ⟨⟨_, hhitpass⟩, ?_⟩
  have hlookup : forall ctx, shouldLookup ctx (some route.hitpass) =
      Except.ok true <-> strategyHitpass = false ∧ contentTypeHitpass = false := by
    intro ctx
    rw [hhitpass]
    apply (map_not_eq_true.trans eitherBypasses_eq_false).trans
    simp [shouldLookup]
  rw [Shared, forall_congr' hlookup, forall_const, and_assoc]

/-- What a listed route inherits is reported, except for two times false. -/
theorem agrees_inherited [Nonempty Context]
    (h : ResolvesListed inherited given route)
    (hstrategy : inherited.strategyHitpass = some (Hitpass.bool strategyHitpass))
    (hboolean : IsBoolean inherited.contentTypeHitpass)
    (hown : given.ownHitpass = none)
    (hnot : ¬ (strategyHitpass = false ∧
      inherited.contentTypeHitpass = some (Hitpass.bool false) ∧
        route.method = HttpMethod.GET ∧
          route.keys.useAuth.truthy = false)) : Agrees route := by
  have hhitpass := h.hitpass
  rw [hown, Option.none_or, hstrategy] at hhitpass
  cases hcontentType : inherited.contentTypeHitpass with
  | none =>
      rw [hcontentType] at hhitpass
      exact agrees_bool hhitpass
  | some hitpass =>
      rcases hboolean hitpass hcontentType with ⟨b, rfl⟩
      by_cases hauth : route.keys.useAuth = UseAuth.bool true
      · rw [hcontentType, hauth] at hhitpass
        exact agrees_bool hhitpass
      · intro hmethod
        rcases shared_listed h hstrategy hcontentType hown hauth with
          ⟨⟨f, hf⟩, hshared⟩
        apply (agrees_function hf hmethod).mpr _ hmethod
        rw [hshared]
        intro hfalse
        rcases hfalse with ⟨hstrategyFalse, rfl, htruthy⟩
        exact hnot ⟨hstrategyFalse, hcontentType, hmethod, htruthy⟩

end Listed

/-!
## Resolved strategies
-/

section Strategies

variable {strapi : Strapi} {userOptions : CachePluginStrategyInput Context}
  {resolved : Resolved Context}

theorem inherited_contentTypeHitpass (entry : CacheContentTypeConfigInput Context) :
    (entry.inherited userOptions).contentTypeHitpass = entry.hitpass.get? :=
  Property.get?_definedOnly entry.hitpass

theorem Overlooked.not_reportsShared [Nonempty Context]
    {entry : CacheContentTypeConfigInput Context} {given : RouteInput Context}
    (h : Overlooked userOptions entry given)
    (hresolved : resolveUserStrategy strapi userOptions = Except.ok resolved) :
    ¬ ReportsShared resolved := by
  rcases exists_related_left (resolved_contentTypes hresolved) h.entry_mem with
    ⟨contentType, hcontentType, hbecomes⟩
  rcases hbecomes.listed with ⟨listed, injected, hroutes, hlisted⟩
  rcases exists_related_left hlisted h.given_mem with ⟨route, hroute, hresolves⟩
  have hmethod : route.method = HttpMethod.GET := hresolves.method.trans h.method
  have htruthy : route.keys.useAuth.truthy = false := by
    rw [hresolves.keys]
    exact h.keys
  have hauth : route.keys.useAuth ≠ UseAuth.bool true := by
    intro hauth
    rw [hauth] at htruthy
    exact Bool.noConfusion htruthy
  rcases shared_listed hresolves h.strategy
    ((inherited_contentTypeHitpass entry).trans h.contentType) h.hitpass hauth with
    ⟨⟨f, hf⟩, hshared⟩
  intro hreports
  have hmem : route ∈ contentType.routes := by
    rw [hroutes]
    exact List.mem_append_left injected hroute
  exact (agrees_function hf hmethod).mp
    (hreports contentType hcontentType route hmem)
    (hshared.mpr ⟨rfl, rfl, htruthy⟩)

theorem agrees_of_becomes [Nonempty Context] {entry : ContentTypeInput Context}
    {contentType : CacheContentTypeConfig Context}
    {route : CacheRouteConfig Context}
    (hboolean : BooleanHitpasses userOptions)
    (hentry : entry ∈ userOptions.contentTypes.getD [])
    (hbecomes : BecomesContentType strapi userOptions entry contentType)
    (hroute : route ∈ contentType.routes)
    (hnot : ¬ exists entry given, Overlooked userOptions entry given) :
    Agrees route := by
  rcases hboolean.strategy with ⟨b, hstrategy⟩
  rcases hbecomes.route_cases hroute with
    ⟨entry, given, rfl, hgiven, hlisted⟩ | hinjected
  · cases hown : given.ownHitpass with
    | some hitpass =>
        rcases hboolean.route entry hentry given hgiven hitpass hown with ⟨own, rfl⟩
        have hhitpass := hlisted.hitpass
        rw [hown] at hhitpass
        exact agrees_bool hhitpass
    | none =>
        apply agrees_inherited hlisted hstrategy _ hown
        · intro hfalse
          rcases hfalse with ⟨rfl, hcontentType, hmethod, htruthy⟩
          rw [inherited_contentTypeHitpass] at hcontentType
          rw [hlisted.method] at hmethod
          rw [hlisted.keys] at htruthy
          exact hnot ⟨entry, given, hentry, hgiven, hstrategy, hcontentType,
            hmethod, hown, htruthy⟩
        · rw [inherited_contentTypeHitpass]
          exact hboolean.contentType _ hentry
  · -- an injected route has its content type's hitpass, or the strategy's
    rw [hstrategy] at hinjected
    cases hown : entry.ownHitpass with
    | none =>
        rw [hown] at hinjected
        exact agrees_bool hinjected
    | some hitpass =>
        rcases hboolean.contentType entry hentry hitpass hown with ⟨own, rfl⟩
        rw [hown] at hinjected
        exact agrees_bool hinjected

/-- Shared routes are reported exactly if none is overlooked. -/
theorem reportsShared_iff [Nonempty Context]
    (hresolved : resolveUserStrategy strapi userOptions = Except.ok resolved)
    (hboolean : BooleanHitpasses userOptions) :
    ReportsShared resolved <->
      ¬ exists entry given, Overlooked userOptions entry given := by
  constructor
  · intro hreports hoverlooked
    rcases hoverlooked with ⟨entry, given, hoverlooked⟩
    exact hoverlooked.not_reportsShared hresolved hreports
  · intro hnot contentType hcontentType route hroute
    rcases exists_related_right (resolved_contentTypes hresolved) hcontentType with
      ⟨entry, hentry, hbecomes⟩
    exact agrees_of_becomes hboolean hentry hbecomes hroute hnot

end Strategies

/-!
## Example
-/

theorem isBoolean_bool (b : Bool) :
    IsBoolean (some (Hitpass.bool b) : Option (Hitpass Context)) := by
  intro hitpass h
  exact ⟨b, (Option.some.inj h).symm⟩

theorem pageStrategy_booleanHitpasses (strategyHitpass hitpass : Bool) :
    BooleanHitpasses (pageStrategy (Hitpass.bool strategyHitpass)
      (Hitpass.bool hitpass) : CachePluginStrategyInput Context) := by
  constructor
  · exact ⟨strategyHitpass, rfl⟩
  · intro entry hentry
    rcases List.mem_singleton.mp hentry with rfl
    exact isBoolean_bool hitpass
  · intro entry hentry given hgiven
    rcases ContentTypeInput.options.inj (List.mem_singleton.mp hentry) with rfl
    rcases List.mem_singleton.mp hgiven with rfl
    exact fun _ h => nomatch h

theorem reportsShared_iff_pages :
    exists resolved,
      resolveUserStrategy (oneContentType pageUid pageType)
          (pageStrategy (Hitpass.bool true) (Hitpass.bool false) :
            CachePluginStrategyInput Bool) = Except.ok resolved ∧
        ReportsShared resolved := by
  refine ⟨_, rfl, ?_⟩
  apply (@reportsShared_iff _ (oneContentType pageUid pageType) _ _ _ rfl
    (pageStrategy_booleanHitpasses true false)).mpr
  intro hoverlooked
  rcases hoverlooked with ⟨entry, given, hoverlooked⟩
  exact nomatch hoverlooked.strategy

/-- The route `/api/pages` is shared, and neither place says so. -/
theorem not_reportsShared_pages :
    exists resolved,
      resolveUserStrategy (oneContentType pageUid pageType)
          (pageStrategy (Hitpass.bool false) (Hitpass.bool false) :
            CachePluginStrategyInput Bool) = Except.ok resolved ∧
        BooleanHitpasses (pageStrategy (Hitpass.bool false) (Hitpass.bool false) :
          CachePluginStrategyInput Bool) ∧
          ¬ ReportsShared resolved := by
  refine ⟨_, rfl, pageStrategy_booleanHitpasses false false, ?_⟩
  have hoverlooked : Overlooked
      (pageStrategy (Hitpass.bool false) (Hitpass.bool false) :
        CachePluginStrategyInput Bool)
      (pageEntry (Hitpass.bool false)) (RouteInput.path "/api/pages".toList) :=
    { entry_mem := List.mem_singleton_self _
      given_mem := List.mem_singleton_self _
      strategy := rfl
      contentType := rfl
      method := rfl
      hitpass := rfl
      keys := rfl }
  exact @Overlooked.not_reportsShared _ (oneContentType pageUid pageType) _ _ _
    _ _ hoverlooked rfl

end Strategy
end RestCache
