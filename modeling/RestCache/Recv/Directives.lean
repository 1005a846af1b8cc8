import RestCache.Recv.Response
import RestCache.Strategy.InheritedHitpass

/-!
# What a route advertises

A client reads from the Cache-Control of a route what the strategy configures for
it, in whole seconds.  It reads `public` only where the key of the route leaves
out the caller, and the start-up names the content types of which some route was
denied it.
-/

namespace RestCache
namespace Recv

open Foundation
open Keys
open Strategy (CachePluginStrategy CacheRouteConfig CacheContentTypeConfig
  CachePluginStrategyInput Resolved Warning printed resolveUserStrategy)

/-!
## The header of a route
-/

def keysSeen (keys : Strategy.CacheKeysConfig) : CacheKeysConfig where
  useHeaders := keys.useHeaders
  useQueryParams := keys.useQueryParams
  useAuth := keys.useAuth.truthy

def scopeSeen : Strategy.Scope -> Scope
  | Strategy.Scope.publicScope => Scope.publicScope
  | Strategy.Scope.privateScope => Scope.privateScope

def maxAgeSeen : Strategy.MaxAge -> MaxAgeSetting
  | Strategy.MaxAge.none => MaxAgeSetting.none
  | Strategy.MaxAge.config => MaxAgeSetting.config
  | Strategy.MaxAge.number ms => MaxAgeSetting.milliseconds ms

def controlSeen (cacheControl : Strategy.CacheControlConfig) :
    CacheControlConfig where
  enabled := cacheControl.enabled
  maxAge := maxAgeSeen cacheControl.maxAge
  scope := scopeSeen cacheControl.scope
  staleWhileRevalidate := cacheControl.staleWhileRevalidate

section Route

variable {Context : Type _}

/-- What recv computes once, when it is made for a route. -/
def cacheControlOf (strategy : CachePluginStrategy Context)
    (cacheRouteConfig : CacheRouteConfig Context) : Option JsString :=
  buildCacheControl (some (controlSeen strategy.cacheControl))
    (keysSeen cacheRouteConfig.keys) cacheRouteConfig.maxAge

end Route

/-!
## Reading a header
-/

structure Directive where
  name : JsString
  seconds : Option Nat
deriving DecidableEq

def seconds (digits : JsString) : Nat :=
  Nat.ofDigitChars 10 digits 0

def readDirective (text : JsString) : Directive :=
  let parts := (trim text).splitOn '='
  { name := parts.headD []
    seconds := parts.tail.head?.map seconds }

/-- A client takes a header apart at its commas. -/
def readDirectives (header : JsString) : List Directive :=
  (header.splitOn ',').map readDirective

def publicDirective : Directive where
  name := "public".toList
  seconds := none

def privateDirective : Directive where
  name := "private".toList
  seconds := none

def Scope.directive : Scope -> Directive
  | Scope.publicScope => publicDirective
  | Scope.privateScope => privateDirective

def maxAgeName : JsString :=
  "max-age".toList

def staleName : JsString :=
  "stale-while-revalidate".toList

def durationDirectives (name : JsString) (ms : Option Nat) : List Directive :=
  (ms.map fun ms => { name, seconds := some (toSeconds ms) }).toList

def MaxAgeSetting.lifetime (routeMaxAge : Nat) : MaxAgeSetting -> Option Nat
  | MaxAgeSetting.none => Option.none
  | MaxAgeSetting.config => some routeMaxAge
  | MaxAgeSetting.milliseconds n => some n

def CacheControlConfig.scopeFor (config : CacheControlConfig)
    (keys : CacheKeysConfig) : Scope :=
  if config.scope = Scope.publicScope ∧ keys.useAuth then Scope.privateScope
  else config.scope

def CacheControlConfig.directivesFor (config : CacheControlConfig)
    (keys : CacheKeysConfig) (routeMaxAge : Nat) : List Directive :=
  (config.scopeFor keys).directive ::
    (durationDirectives maxAgeName (config.maxAge.lifetime routeMaxAge) ++
      durationDirectives staleName config.staleWhileRevalidate)

/-!
## Reading back what was built
-/

def Plain (text : JsString) : Prop :=
  forall c, c ∈ text -> isSpace c = false ∧ c ≠ ',' ∧ c ≠ '='

instance (text : JsString) : Decidable (Plain text) :=
  List.decidableBAll _ text

theorem plain_decimal (n : Nat) : Plain (decimal n) := by
  intro c hc
  have hdigit : c.isDigit = true :=
    Nat.isDigit_of_mem_toDigits (by decide) (by decide) hc
  have hrange : 48 ≤ c.toNat ∧ c.toNat ≤ 57 := by
    simpa [Char.isDigit, UInt32.le_iff_toNat_le] using hdigit
  refine ⟨?_, ?_, ?_⟩
  · rw [isSpace, decide_eq_false]
    simp only [List.mem_cons, List.not_mem_nil, or_false, List.mem_range'_1]
    omega
  · intro heq
    rw [heq] at hrange
    exact absurd hrange (by decide)
  · intro heq
    rw [heq] at hrange
    exact absurd hrange (by decide)

theorem dropWhile_of_none {text : JsString}
    (h : forall c, c ∈ text -> isSpace c = false) :
    text.dropWhile isSpace = text := by
  cases text with
  | nil => rfl
  | cons c rest => rw [List.dropWhile_cons, h c List.mem_cons_self]; rfl

theorem trim_of_none {text : JsString}
    (h : forall c, c ∈ text -> isSpace c = false) : trim text = text := by
  rw [trim, dropWhile_of_none h, dropWhile_of_none, List.reverse_reverse]
  intro c hc
  exact h c (List.mem_reverse.mp hc)

theorem trim_cons_space (text : JsString) : trim (' ' :: text) = trim text := by
  have hspace : (' ' :: text).dropWhile isSpace = text.dropWhile isSpace :=
    List.dropWhile_cons_of_pos (by decide)
  rw [trim, hspace]
  rfl

theorem readDirective_of_plain {text : JsString} (h : Plain text) :
    readDirective text = { name := text, seconds := none } := by
  have hparts : text.splitOn '=' = [text] := by
    have hsplit := @List.splitOn_intercalate _ [text] _ _ '='
      (fun l hl hmem => (h '=' (List.mem_singleton.mp hl ▸ hmem)).right.right rfl)
      (List.cons_ne_nil _ _)
    simpa using hsplit
  rw [readDirective, trim_of_none (fun c hc => (h c hc).left), hparts]
  rfl

theorem readDirective_argument {name : JsString} (h : Plain name) (n : Nat) :
    readDirective (name ++ '=' :: decimal n) = { name, seconds := some n } := by
  have hnumber := plain_decimal n
  have hparts : (name ++ '=' :: decimal n).splitOn '=' = [name, decimal n] := by
    have hsplit := @List.splitOn_intercalate _ [name, decimal n] _ _ '=' (by
      intro l hl hmem
      rcases List.mem_cons.mp hl with rfl | hl
      · exact (h '=' hmem).right.right rfl
      · exact (hnumber '=' (List.mem_singleton.mp hl ▸ hmem)).right.right rfl)
      (List.cons_ne_nil _ _)
    simpa [List.intercalate] using hsplit
  rw [readDirective, trim_of_none, hparts]
  · show Directive.mk name (some (seconds (decimal n))) = _
    rw [seconds, decimal, Nat.ofDigitChars_toDigits (by decide) (by decide)]
  · intro c hc
    rcases List.mem_append.mp hc with hc | hc
    · exact (h c hc).left
    · rcases List.mem_cons.mp hc with rfl | hc
      · rfl
      · exact (hnumber c hc).left

theorem readDirectives_intercalate {first : JsString} {rest : List JsString}
    (h : forall part, part ∈ first :: rest -> ',' ∉ part) :
    readDirectives (", ".toList.intercalate (first :: rest)) =
      (first :: rest).map readDirective := by
  have hjoin : forall (first : JsString) (rest : List JsString),
      ", ".toList.intercalate (first :: rest) =
        [','].intercalate (first :: rest.map (fun part => ' ' :: part)) := by
    intro first rest
    induction rest generalizing first with
    | nil => rfl
    | cons second rest ih =>
        have hstep : forall (sep part : JsString) (parts : List JsString),
            sep.intercalate (first :: part :: parts) =
              first ++ (sep ++ sep.intercalate (part :: parts)) := by
          intro sep part parts
          simp [List.intercalate]
        rw [List.map_cons, hstep, hstep, ih]
        cases rest with
        | nil => simp [List.intercalate]
        | cons third rest => simp [List.intercalate]
  rw [hjoin, readDirectives, List.splitOn_intercalate ',' _ (List.cons_ne_nil _ _),
    List.map_cons, List.map_map, List.map_cons]
  · refine congrArg (List.cons _) ?_
    apply List.map_congr_left
    intro part _
    show readDirective (' ' :: part) = readDirective part
    rw [readDirective, trim_cons_space, ← readDirective]
  · intro part hpart
    rcases List.mem_cons.mp hpart with rfl | hpart
    · exact h part List.mem_cons_self
    · rcases List.mem_map.mp hpart with ⟨given, hgiven, rfl⟩
      intro hcomma
      rcases List.mem_cons.mp hcomma with heq | hcomma
      · exact absurd heq (by decide)
      · exact h given (List.mem_cons_of_mem first hgiven) hcomma

section Header

variable {config : CacheControlConfig} {keys : CacheKeysConfig}
  {routeMaxAge : Nat} {text : JsString}

theorem buildCacheControl_eq_none :
    buildCacheControl (some config) keys routeMaxAge = none <->
      config.enabled = false := by
  rw [buildCacheControl]
  cases config.enabled <;> simp

def durationParts (name : JsString) (ms : Option Nat) : List JsString :=
  (ms.map fun ms => name ++ '=' :: decimal (toSeconds ms)).toList

theorem buildCacheControl_eq_some
    (h : buildCacheControl (some config) keys routeMaxAge = some text) :
    text = ", ".toList.intercalate ((config.scopeFor keys).text ::
      (durationParts maxAgeName (config.maxAge.lifetime routeMaxAge) ++
        durationParts staleName config.staleWhileRevalidate)) := by
  have hjoin : forall (name given digits : JsString), given = name ++ ['='] ->
      given ++ digits = name ++ '=' :: digits := by
    intro name given digits hgiven
    rw [hgiven, List.append_assoc, List.singleton_append]
  have hmaxAge := fun ms => hjoin maxAgeName "max-age=".toList
    (decimal (toSeconds ms)) (by decide)
  have hstale := fun ms => hjoin staleName "stale-while-revalidate=".toList
    (decimal (toSeconds ms)) (by decide)
  rw [buildCacheControl] at h
  split at h
  · rw [← Option.some.inj h]
    cases config.maxAge <;> cases config.staleWhileRevalidate <;>
      simp only [hmaxAge, hstale] <;> rfl
  · cases h

theorem readDirective_durationParts {name : JsString} (h : Plain name)
    (ms : Option Nat) :
    (durationParts name ms).map readDirective = durationDirectives name ms := by
  cases ms with
  | none => rfl
  | some ms =>
      exact congrArg (fun d => [d]) (readDirective_argument h (toSeconds ms))

theorem not_comma_durationParts {name : JsString} (h : Plain name)
    {ms : Option Nat} {part : JsString} (hpart : part ∈ durationParts name ms) :
    ',' ∉ part := by
  rcases Option.map_eq_some_iff.mp (Option.mem_toList.mp hpart) with ⟨n, _, rfl⟩
  intro hmem
  rcases List.mem_append.mp hmem with hmem | hmem
  · exact (h ',' hmem).right.left rfl
  · rcases List.mem_cons.mp hmem with heq | hmem
    · exact absurd heq (by decide)
    · exact (plain_decimal (toSeconds n) ',' hmem).right.left rfl

/-- What a client reads is what is configured. -/
theorem readDirectives_buildCacheControl
    (h : buildCacheControl (some config) keys routeMaxAge = some text) :
    readDirectives text = config.directivesFor keys routeMaxAge := by
  have hscope : forall scope : Scope, Plain scope.text := by
    intro scope
    cases scope <;> decide
  have hread : forall scope : Scope,
      readDirective scope.text = scope.directive := by
    intro scope
    rw [readDirective_of_plain (hscope scope)]
    cases scope <;> rfl
  have hmaxAge : Plain maxAgeName := by decide
  have hstale : Plain staleName := by decide
  rw [buildCacheControl_eq_some h, readDirectives_intercalate, List.map_cons,
    List.map_append, hread, readDirective_durationParts hmaxAge,
    readDirective_durationParts hstale]
  · rfl
  · intro part hpart
    rcases List.mem_cons.mp hpart with rfl | hpart
    · intro hcomma
      exact (hscope (config.scopeFor keys) ',' hcomma).right.left rfl
    · rcases List.mem_append.mp hpart with hpart | hpart
      · exact not_comma_durationParts hmaxAge hpart
      · exact not_comma_durationParts hstale hpart

theorem scope_directive_inj {scope other : Scope} :
    scope.directive = other.directive <-> scope = other := by
  cases scope <;> cases other <;> decide

theorem mem_durationDirectives {name : JsString} {ms : Option Nat}
    {d : Directive} :
    d ∈ durationDirectives name ms <->
      exists n, ms = some n ∧ d = { name, seconds := some (toSeconds n) } := by
  rw [durationDirectives, Option.mem_toList, Option.map_eq_some_iff]
  exact exists_congr fun n => and_congr_right fun _ => eq_comm

theorem scope_mem_directivesFor {scope : Scope} :
    scope.directive ∈ config.directivesFor keys routeMaxAge <->
      config.scopeFor keys = scope := by
  have hnone : forall (name : JsString) (ms : Option Nat),
      scope.directive ∉ durationDirectives name ms := by
    intro name ms hmem
    rcases mem_durationDirectives.mp hmem with ⟨n, _, h⟩
    cases scope <;> cases h
  rw [CacheControlConfig.directivesFor, List.mem_cons, List.mem_append,
    scope_directive_inj]
  constructor
  · intro h
    rcases h with h | h | h
    · exact h.symm
    · exact absurd h (hnone _ _)
    · exact absurd h (hnone _ _)
  · intro h
    exact Or.inl h.symm

theorem scopeFor_eq_public :
    config.scopeFor keys = Scope.publicScope <->
      config.scope = Scope.publicScope ∧ keys.useAuth = false := by
  rw [CacheControlConfig.scopeFor]
  cases config.scope <;> cases keys.useAuth <;> decide

end Header

/-!
## Keys that leave out the caller
-/

def SameButCaller (a b : Context) : Prop :=
  exists auth, b = { a with auth }

/-- No caller gets an entry of its own. -/
def IgnoresCaller (lower : CaseMapping) (keys : CacheKeysConfig) : Prop :=
  forall a b, SameButCaller a b ->
    generateCacheKey lower a keys = generateCacheKey lower b keys

def callerOf (auth : Option AuthState) : Context where
  path := []
  path_noQuery := List.not_mem_nil
  query := Query.empty
  header _ := none
  auth := auth

def someUser : AuthState where
  strategy := some { name := some usersPermissionsName }
  credentials := none

theorem ignoresCaller_iff {lower : CaseMapping} {keys : CacheKeysConfig} :
    IgnoresCaller lower keys <-> keys.useAuth = false := by
  constructor
  · intro h
    have hkey := h (callerOf none) (callerOf (some someUser)) ⟨_, rfl⟩
    cases huse : keys.useAuth with
    | false => rfl
    | true =>
        exact absurd ((sameForKeys_of_key_eq hkey).auth huse) (by decide)
  · intro huse a b hsame
    rcases hsame with ⟨auth, rfl⟩
    apply key_eq_of_sameForKeys
    refine ⟨rfl, fun _ _ => rfl, fun _ _ => rfl, ?_⟩
    intro htrue
    rw [huse] at htrue
    cases htrue

/-!
## What the strategy advertises
-/

section Strategies

variable {Context : Type _} {view : Strategy.Strapi}
  {userOptions : CachePluginStrategyInput Context} {resolved : Resolved Context}

/-- The strategy says public, and a client of the route reads private. -/
def downgraded (strategy : CachePluginStrategy Context)
    (route : CacheRouteConfig Context) : Bool :=
  strategy.cacheControl.scope = Strategy.Scope.publicScope &&
    (cacheControlOf strategy route).any fun text =>
      privateDirective ∈ readDirectives text

/-- What clients are told, and what the operator is told at start-up. -/
structure Advertises (lower : CaseMapping) (resolved : Resolved Context) :
    Prop where
  quiet : forall route, cacheControlOf resolved.strategy route = none <->
    resolved.strategy.cacheControl.enabled = false
  read : forall route text, cacheControlOf resolved.strategy route = some text ->
    readDirectives text =
      (controlSeen resolved.strategy.cacheControl).directivesFor
        (keysSeen route.keys) route.maxAge
  shared : forall route text,
    cacheControlOf resolved.strategy route = some text ->
      (publicDirective ∈ readDirectives text <->
        resolved.strategy.cacheControl.scope = Strategy.Scope.publicScope ∧
          IgnoresCaller lower (keysSeen route.keys))
  warned : forall uid count,
    Warning.keyedPerCaller uid count ∈ resolved.warnings <->
      exists contentType, contentType ∈ resolved.strategy.contentTypes ∧
        uid = printed contentType.contentType ∧
          count = (contentType.routes.filter
            (downgraded resolved.strategy)).length ∧ 0 < count

theorem scopeSeen_eq_public {scope : Strategy.Scope} :
    scopeSeen scope = Scope.publicScope <->
      scope = Strategy.Scope.publicScope := by
  cases scope <;> decide

theorem cacheControlOf_eq_none (strategy : CachePluginStrategy Context)
    (route : CacheRouteConfig Context) :
    cacheControlOf strategy route = none <->
      strategy.cacheControl.enabled = false :=
  buildCacheControl_eq_none

theorem scope_mem_cacheControlOf {strategy : CachePluginStrategy Context}
    {route : CacheRouteConfig Context} {text : JsString}
    (h : cacheControlOf strategy route = some text) (scope : Scope) :
    scope.directive ∈ readDirectives text <->
      (controlSeen strategy.cacheControl).scopeFor (keysSeen route.keys) =
        scope := by
  rw [readDirectives_buildCacheControl h]
  exact scope_mem_directivesFor

theorem scopeFor_seen_eq_public (cacheControl : Strategy.CacheControlConfig)
    (keys : Strategy.CacheKeysConfig) :
    (controlSeen cacheControl).scopeFor (keysSeen keys) = Scope.publicScope <->
      cacheControl.scope = Strategy.Scope.publicScope ∧
        keys.useAuth.truthy = false := by
  rw [scopeFor_eq_public]
  exact and_congr scopeSeen_eq_public Iff.rfl

theorem scope_private_of_not_public {scope : Scope}
    (h : scope ≠ Scope.publicScope) : scope = Scope.privateScope := by
  cases scope with
  | publicScope => exact absurd rfl h
  | privateScope => rfl

theorem downgraded_eq (strategy : CachePluginStrategy Context)
    (route : CacheRouteConfig Context) :
    downgraded strategy route =
      (strategy.cacheControl.enabled &&
        strategy.cacheControl.scope = Strategy.Scope.publicScope &&
          route.keys.useAuth.truthy) := by
  rw [downgraded, Bool.eq_iff_iff]
  simp only [Bool.and_eq_true, decide_eq_true_eq, Option.any_eq_true]
  constructor
  · intro h
    rcases h with ⟨hscope, text, htext, hprivate⟩
    refine ⟨⟨?_, hscope⟩, ?_⟩
    · rw [← Bool.not_eq_false, ← cacheControlOf_eq_none strategy route, htext]
      exact Option.some_ne_none text
    · rw [← Bool.not_eq_false]
      intro huse
      have hfor := (scope_mem_cacheControlOf htext Scope.privateScope).mp hprivate
      rw [(scopeFor_seen_eq_public _ _).mpr ⟨hscope, huse⟩] at hfor
      cases hfor
  · intro h
    rcases h with ⟨⟨henabled, hscope⟩, huse⟩
    refine ⟨hscope, ?_⟩
    cases htext : cacheControlOf strategy route with
    | none =>
        rw [(cacheControlOf_eq_none strategy route).mp htext] at henabled
        cases henabled
    | some text =>
        refine ⟨text, rfl, ?_⟩
        apply (scope_mem_cacheControlOf htext Scope.privateScope).mpr
        apply scope_private_of_not_public
        intro hpublic
        rw [((scopeFor_seen_eq_public _ _).mp hpublic).right] at huse
        cases huse

theorem advertisesPublic_eq (given : Option Strategy.CacheControlOption) :
    Strategy.advertisesPublic given =
      ((Strategy.cacheControlOf given).enabled &&
        (Strategy.cacheControlOf given).scope = Strategy.Scope.publicScope) := by
  cases given with
  | none => rfl
  | some given =>
      cases given with
      | config cacheControl => rfl
      | options options =>
          have hscope : (options.scope.get? = some Strategy.Scope.publicScope) =
              (options.scope.getD Strategy.Scope.privateScope =
                Strategy.Scope.publicScope) := by
            rw [Property.getD]
            cases options.scope.get? with
            | none => simp
            | some scope => simp
          simp only [Strategy.advertisesPublic, hscope]
          rfl

theorem warned_iff (h : resolveUserStrategy view userOptions = Except.ok resolved)
    (uid : JsString) (count : Nat) :
    Warning.keyedPerCaller uid count ∈ resolved.warnings <->
      exists contentType, contentType ∈ resolved.strategy.contentTypes ∧
        uid = printed contentType.contentType ∧
          count = (contentType.routes.filter
            (downgraded resolved.strategy)).length ∧ 0 < count := by
  rw [resolveUserStrategy, bind_eq_ok] at h
  rcases h with ⟨drafts, _, h⟩
  rw [map_eq_ok] at h
  rcases h with ⟨cacheConfigs, _, rfl⟩
  have hunkeyed : Warning.keyedPerCaller uid count ∉
      cacheConfigs.flatMap Strategy.unkeyedWarning := by
    intro hmem
    rcases List.mem_flatMap.mp hmem with ⟨cacheConfig, _, hwarning⟩
    rw [Strategy.unkeyedWarning] at hwarning
    split at hwarning
    · cases hwarning
    · cases List.mem_singleton.mp hwarning
  have hkeyed : forall cacheConfig : Strategy.DraftContentTypeConfig Context,
      Warning.keyedPerCaller uid count ∈ Strategy.keyedWarning cacheConfig <->
        uid = printed cacheConfig.contentType ∧
          count = (cacheConfig.routes.filter
            (fun route => route.keys.useAuth.truthy)).length ∧ 0 < count := by
    intro cacheConfig
    rw [Strategy.keyedWarning]
    split
    · rename_i hnil
      rw [hnil]
      constructor
      · intro hmem
        cases hmem
      · intro hcount
        rw [hcount.right.left] at hcount
        exact absurd hcount.right.right (Nat.lt_irrefl 0)
    · rename_i hsome
      rw [List.mem_singleton, Warning.keyedPerCaller.injEq]
      constructor
      · intro hcount
        rw [hcount.left, hcount.right]
        exact ⟨rfl, rfl, List.length_pos_of_ne_nil hsome⟩
      · intro hcount
        exact ⟨hcount.left, hcount.right.left⟩
  have hdowngraded : downgraded (Strategy.CachePluginStrategy.new userOptions
      (cacheConfigs.map CacheContentTypeConfig.new)) =
        fun route => Strategy.advertisesPublic userOptions.cacheControl.get? &&
          route.keys.useAuth.truthy := by
    funext route
    rw [downgraded_eq, advertisesPublic_eq]
    rfl
  show _ ∈ cacheConfigs.flatMap Strategy.unkeyedWarning ++ _ <->
    exists contentType, contentType ∈ cacheConfigs.map _ ∧ _
  rw [hdowngraded, List.mem_append, or_iff_right hunkeyed]
  cases Strategy.advertisesPublic userOptions.cacheControl.get? with
  | false =>
      constructor
      · intro hmem
        cases hmem
      · intro hmem
        rcases hmem with ⟨contentType, _, _, hcount, hpos⟩
        rw [hcount] at hpos
        simp at hpos
  | true =>
      show _ ∈ cacheConfigs.flatMap Strategy.keyedWarning <-> _
      rw [List.mem_flatMap]
      constructor
      · intro hmem
        rcases hmem with ⟨cacheConfig, hconfig, hwarning⟩
        exact ⟨_, List.mem_map_of_mem hconfig, (hkeyed cacheConfig).mp hwarning⟩
      · intro hmem
        rcases hmem with ⟨contentType, hmem, hcount⟩
        rcases List.mem_map.mp hmem with ⟨cacheConfig, hconfig, rfl⟩
        exact ⟨cacheConfig, hconfig, (hkeyed cacheConfig).mpr hcount⟩

theorem resolved_advertises (lower : CaseMapping)
    (h : resolveUserStrategy view userOptions = Except.ok resolved) :
    Advertises lower resolved where
  quiet route := cacheControlOf_eq_none resolved.strategy route
  read _ _ htext := readDirectives_buildCacheControl htext
  shared route _ htext := by
    rw [ignoresCaller_iff]
    exact (scope_mem_cacheControlOf htext Scope.publicScope).trans
      (scopeFor_seen_eq_public _ _)
  warned := warned_iff h

end Strategies

/-!
A public strategy with two listed routes, one of which is keyed per caller.
-/

def keysWithAuth : Strategy.KeysOption :=
  Strategy.KeysOption.options
    { useHeaders := Property.absent
      useQueryParams := Property.absent
      useAuth := Property.value (Strategy.UseAuth.bool true) }

def publicForHalfAnHour : Strategy.CacheControlOption :=
  Strategy.CacheControlOption.options
    { enabled := Property.value true
      maxAge := Property.value (Strategy.MaxAge.number 1800000)
      scope := Property.value Strategy.Scope.publicScope
      staleWhileRevalidate := Property.absent }

def ownPage : Strategy.CacheRouteConfigInput Unit where
  path := Property.value "/api/pages/mine".toList
  method := Property.absent
  paramNames := Property.absent
  maxAge := Property.absent
  hitpass := Property.absent
  keys := Property.value keysWithAuth

def pagesEntry : Strategy.CacheContentTypeConfigInput Unit :=
  { (Strategy.noEntryOptions : Strategy.CacheContentTypeConfigInput Unit) with
    contentType := Property.value Strategy.pageUid
    injectDefaultRoutes := Property.value false
    routes := Property.value
      [Strategy.RouteInput.path "/api/pages".toList,
        Strategy.RouteInput.options ownPage] }

def publicPages : CachePluginStrategyInput Unit :=
  { (Strategy.noStrategyOptions : CachePluginStrategyInput Unit) with
    contentTypes := Property.value [Strategy.ContentTypeInput.options pagesEntry]
    cacheControl := Property.value publicForHalfAnHour
    hitpass := Property.value (Strategy.Hitpass.bool true) }

theorem resolved_advertises_publicPages :
    exists resolved,
      resolveUserStrategy (Strategy.oneContentType Strategy.pageUid
          Strategy.pageType) publicPages = Except.ok resolved ∧
        resolved.warnings = [Warning.keyedPerCaller Strategy.pageUid 1] ∧
          Advertises CaseMapping.latin1 resolved := by
  have hwarnings : (resolveUserStrategy (Strategy.oneContentType
      Strategy.pageUid Strategy.pageType) publicPages).toOption.map
        Resolved.warnings = some [Warning.keyedPerCaller Strategy.pageUid 1] := by
    decide
  cases hresolved : resolveUserStrategy (Strategy.oneContentType
      Strategy.pageUid Strategy.pageType) publicPages with
  | error e =>
      rw [hresolved] at hwarnings
      cases hwarnings
  | ok resolved =>
      rw [hresolved] at hwarnings
      exact ⟨resolved, rfl, Option.some.inj hwarnings,
        resolved_advertises CaseMapping.latin1 hresolved⟩

end Recv
end RestCache
