import RestCache.Foundation.Batches
import RestCache.Store.PrefixIsolation

/-!
# What the store needs of a provider

A provider keeps to the contract if its calls, taken one after the other, are
those of a plain map from keys to texts, except that it may list keys with
nothing behind them.  Then the store over it is a store over that map, whatever
it is asked to do and whatever expires in between.
-/

namespace RestCache
namespace Store

open Foundation
open Config
open Batches

/-!
## Maps
-/

abbrev Contents :=
  JsString -> Option JsString

namespace Contents

def empty : Contents :=
  fun _ => none

def put (key val : JsString) (m : Contents) : Contents :=
  fun other => if other = key then some val else m other

def remove (gone : JsString -> Bool) (m : Contents) : Contents :=
  fun key => if gone key then none else m key

theorem of_remove {m : Contents} {gone : JsString -> Bool} {key : JsString}
    (h : (m.remove gone) key ≠ none) :
    m key ≠ none ∧ gone key = false ∧ (m.remove gone) key = m key := by
  unfold Contents.remove at h ⊢
  cases hgone : gone key with
  | true =>
      rw [hgone, if_pos rfl] at h
      exact absurd rfl h
  | false =>
      rw [hgone, if_neg Bool.false_ne_true] at h
      exact ⟨h, rfl, if_neg Bool.false_ne_true⟩

theorem remove_congr {m : Contents} {gone other : JsString -> Bool}
    (h : forall key, m key ≠ none -> gone key = other key) :
    m.remove gone = m.remove other := by
  funext key
  unfold remove
  by_cases hkey : m key = none
  · simp [hkey]
  · rw [h key hkey]

theorem remove_none {m : Contents} {gone : JsString -> Bool}
    (h : forall key, m key ≠ none -> gone key = false) : m.remove gone = m := by
  funext key
  unfold remove
  by_cases hkey : m key = none
  · simp [hkey]
  · simp [h key hkey]

theorem remove_all {m : Contents} {gone : JsString -> Bool}
    (h : forall key, m key ≠ none -> gone key = true) :
    m.remove gone = empty := by
  funext key
  unfold remove empty
  by_cases hkey : m key = none
  · simp [hkey]
  · simp [h key hkey]

theorem remove_remove (m : Contents) (gone other : JsString -> Bool) :
    (m.remove gone).remove other =
      m.remove (fun key => gone key || other key) := by
  funext key
  unfold remove
  cases hgone : gone key <;> cases hother : other key <;> simp [hgone, hother]

end Contents

/-!
## The contract
-/

variable {σ : Type}

/-- The calls that every provider has, on a state that holds these contents. -/
structure Portable (provider : CacheProvider σ)
    (Holds : σ -> Contents -> Prop) : Prop where
  ready : forall held m, Holds held m -> provider.ready held = true
  get : forall key held m, Holds held m ->
    (provider.get key held).1 = Answer.value (m key) ∧
      Holds (provider.get key held).2 m
  set : forall key val maxAge held m, Holds held m ->
    (provider.set key val maxAge held).1 = Answer.value () ∧
      Holds (provider.set key val maxAge held).2 (m.put key val)
  del : forall key held m, Holds held m ->
    (provider.del key held).1 = Answer.value () ∧
      Holds (provider.del key held).2 (m.remove (fun other => other = key))
  keys : forall keysPrefix held m, Holds held m ->
    exists listed, (provider.keys keysPrefix held).1 = Answer.value listed ∧
      (forall key, m key ≠ none -> key ∈ listed) ∧
      Holds (provider.keys keysPrefix held).2 m

/-- The calls that the base class has a default for as well. -/
structure Contract (provider : CacheProvider σ)
    (Holds : σ -> Contents -> Prop) : Prop extends Portable provider Holds where
  delMany : forall keys held m, Holds held m ->
    (provider.delMany keys held).1 = Answer.value () ∧
      Holds (provider.delMany keys held).2 (m.remove (fun key => key ∈ keys))
  clear : forall held m, Holds held m ->
    (provider.clear held).1 = Answer.value () ∧
      Holds (provider.clear held).2 Contents.empty

/-- What can happen to a provider between two calls. -/
structure Surroundings (σ : Type) where
  expire : JsString -> σ -> σ
  tidy : σ -> σ

/-- An entry may expire; tidying up changes nothing that is held. -/
structure Surroundings.Fair (around : Surroundings σ)
    (Holds : σ -> Contents -> Prop) : Prop where
  expire : forall key held m, Holds held m ->
    Holds (around.expire key held) (m.remove (fun other => other = key))
  tidy : forall held m, Holds held m -> Holds (around.tidy held) m

/-!
## Runs of a store
-/

inductive Happening where
  | call (op : Operation)
  | expire (key : JsString)
  | tidy

section Run

variable (strategy : RelatedStrategy) (lower : CaseMapping) (self : CacheStore)

def Operation.perform (provider : CacheProvider σ) (op : Operation)
    (s : State σ) : Settled (Option Unit) × State σ :=
  match op with
  | Operation.get key => (Except.ok none, (self.readEntry provider key s).2)
  | Operation.keys =>
      let z := self.keys provider s
      (z.1.map (fun _ => none), z.2)
  | Operation.set key val maxAge type =>
      self.set provider key val maxAge type s
  | Operation.del key => self.del provider key s
  | Operation.delMany names => self.delMany provider names s
  | Operation.clearByRegexp regExps => self.clearByRegexp provider regExps s
  | Operation.clearByUid uid params wildcard =>
      self.clearByUid provider strategy lower uid params wildcard s
  | Operation.reset => self.reset provider s

def Happening.perform (provider : CacheProvider σ) (around : Surroundings σ)
    (s : State σ) : Happening -> State σ
  | Happening.call op => (op.perform strategy lower self provider s).2
  | Happening.expire key => { s with held := around.expire key s.held }
  | Happening.tidy => { s with held := around.tidy s.held }

/-!
The same run on the contents themselves.  A purge by patterns removes what they
match of the keys with the prefix; a reset removes all of these.
-/

def purged (regExps : RegExps) (gone : JsString -> Bool)
    (s : State Contents) : State Contents where
  log := recordPurge regExps s.log
  held := s.held.remove (fun key => self.hasPrefix key && gone (self.stripPrefix key))

def Operation.effect (op : Operation) (s : State Contents) :
    State Contents :=
  match op with
  | Operation.get _ => s
  | Operation.keys => s
  | Operation.set key val _ type =>
      { s with held := s.held.put (self.stored key) (serialize val type) }
  | Operation.del key =>
      { s with held := s.held.remove (fun other => other = self.stored key) }
  | Operation.delMany names =>
      { s with held := s.held.remove (fun key => key ∈ names.map self.stored) }
  | Operation.clearByRegexp regExps =>
      purged self (some regExps) (CacheStore.shouldDel regExps) s
  | Operation.clearByUid uid params wildcard =>
      match strategy.clearPatterns lower uid params wildcard with
      | Except.error _ => s
      | Except.ok regExps =>
          purged self (some regExps) (CacheStore.shouldDel regExps) s
  | Operation.reset => purged self none (fun _ => true) s

def Happening.effect (s : State Contents) : Happening -> State Contents
  | Happening.call op => op.effect strategy lower self s
  | Happening.expire key =>
      { s with held := s.held.remove (fun other => other = key) }
  | Happening.tidy => s

def State.read (s : State Contents) (key : JsString) : Option JsonValue :=
  ((s.held (self.stored key)).bind
    (fun text => (deserializeEntry text).join)).map CacheEntry.data

def Operation.buildable : Operation -> Bool
  | Operation.clearByUid uid params wildcard =>
      (strategy.clearPatterns lower uid params wildcard).isOk
  | _ => true

end Run

/-!
## One call
-/

structure Agrees (Holds : σ -> Contents -> Prop) (s : State σ)
    (m : State Contents) : Prop where
  log : s.log = m.log
  held : Holds s.held m.held

section Calls

variable {provider : CacheProvider σ} {Holds : σ -> Contents -> Prop}
  {keysPrefix : JsString} {s : State σ} {m : State Contents}

theorem hasPrefix_stored (self : CacheStore) (key : JsString) :
    self.hasPrefix (self.stored key) = true :=
  List.isPrefixOf_iff_prefix.mpr (List.prefix_append _ _)

theorem stripPrefix_stored (self : CacheStore) (key : JsString) :
    self.stripPrefix (self.stored key) = key :=
  List.drop_left

theorem not_unusable (h : Contract provider Holds) (hs : Agrees Holds s m) :
    (prefixed keysPrefix).unusable provider s ≠ true := by
  unfold CacheStore.unusable
  rw [h.ready s.held m.held hs.held]
  exact Bool.false_ne_true

theorem delMany_agrees (h : Contract provider Holds) (hs : Agrees Holds s m)
    (keys : List JsString) :
    ((prefixed keysPrefix).delMany provider keys s).1.isOk = true ∧
      Agrees Holds ((prefixed keysPrefix).delMany provider keys s).2
        { m with held :=
            m.held.remove (fun key => key ∈ keys.map (prefixed keysPrefix).stored) } := by
  refine ⟨CacheStore.delMany_resolves keys s, ?_⟩
  unfold CacheStore.delMany
  rw [if_neg (not_unusable h hs)]
  split
  · rename_i hnil
    refine ⟨hs.log, ?_⟩
    show Holds s.held _
    rw [Contents.remove_none (by simp [hnil])]
    exact hs.held
  · exact ⟨hs.log, (h.delMany _ s.held m.held hs.held).right⟩

theorem remove_listed {listed : List JsString} {contents : Contents}
    (hlisted : forall key, contents key ≠ none -> key ∈ listed)
    (gone : JsString -> Bool) :
    contents.remove (fun key => key ∈
        (((prefixed keysPrefix).logicalKeys listed).filter gone).map
          (prefixed keysPrefix).stored) =
      contents.remove (fun key => (prefixed keysPrefix).hasPrefix key &&
        gone ((prefixed keysPrefix).stripPrefix key)) := by
  apply Contents.remove_congr
  intro key hkey
  apply Bool.eq_iff_iff.mpr
  rw [decide_eq_true_iff, List.mem_map, Bool.and_eq_true]
  constructor
  · intro hmem
    rcases hmem with ⟨logical, hlogical, rfl⟩
    rw [hasPrefix_stored, stripPrefix_stored]
    exact ⟨rfl, (List.mem_filter.mp hlogical).right⟩
  · intro hgone
    rcases hgone with ⟨hbegins, hgone⟩
    rcases List.isPrefixOf_iff_prefix.mp hbegins with ⟨rest, rfl⟩
    have hstrip := stripPrefix_stored (prefixed keysPrefix) rest
    unfold CacheStore.stored at hstrip
    rw [hstrip] at hgone
    exact ⟨rest, List.mem_filter.mpr
      ⟨mem_logicalKeys.mpr (hlisted _ hkey), hgone⟩, rfl⟩

theorem keys_agrees (h : Contract provider Holds) (hs : Agrees Holds s m) :
    exists listed s', (prefixed keysPrefix).keys provider s =
        (Except.ok (some ((prefixed keysPrefix).logicalKeys listed)), s') ∧
      (forall key, m.held key ≠ none -> key ∈ listed) ∧ Agrees Holds s' m := by
  rcases h.keys keysPrefix s.held m.held hs.held with
    ⟨listed, hanswer, hlisted, hheld⟩
  refine ⟨listed, { s with held := (provider.keys keysPrefix s.held).2 }, ?_,
    hlisted, hs.log, hheld⟩
  unfold CacheStore.keys
  rw [if_neg (not_unusable h hs)]
  show ((returned (provider.keys keysPrefix s.held).1).map _, _) = _
  rw [hanswer]
  rfl

theorem clearByRegexp_agrees (h : Contract provider Holds)
    (hs : Agrees Holds s m) (regExps : List Pattern) :
    ((prefixed keysPrefix).clearByRegexp provider regExps s).1.isOk = true ∧
      Agrees Holds ((prefixed keysPrefix).clearByRegexp provider regExps s).2
        (purged (prefixed keysPrefix) (some regExps)
          (CacheStore.shouldDel regExps) m) := by
  have hrecord : Agrees Holds (s.record (some regExps))
      { m with log := recordPurge (some regExps) m.log } :=
    ⟨congrArg (recordPurge (some regExps)) hs.log, hs.held⟩
  rcases @keys_agrees σ provider Holds keysPrefix _ _ h hrecord with
    ⟨listed, s', hkeys, hlisted, hs'⟩
  unfold CacheStore.clearByRegexp purged
  rw [hkeys, ← remove_listed hlisted]
  exact delMany_agrees h hs' _

theorem reset_agrees (h : Contract provider Holds) (hs : Agrees Holds s m) :
    ((prefixed keysPrefix).reset provider s).1.isOk = true ∧
      Agrees Holds ((prefixed keysPrefix).reset provider s).2
        (purged (prefixed keysPrefix) none (fun _ => true) m) := by
  refine ⟨CacheStore.reset_resolves s, ?_⟩
  have hrecord : Agrees Holds (s.record none)
      { m with log := recordPurge none m.log } :=
    ⟨congrArg (recordPurge none) hs.log, hs.held⟩
  unfold CacheStore.reset purged
  rw [if_neg (not_unusable h hs)]
  split
  · rcases @keys_agrees σ provider Holds keysPrefix _ _ h hrecord with
      ⟨listed, s', hkeys, hlisted, hs'⟩
    have hremoved := @remove_listed keysPrefix listed m.held hlisted
      (fun _ => true)
    rw [List.filter_true] at hremoved
    rw [hkeys, ← hremoved]
    exact (delMany_agrees h hs' _).right
  · rename_i hnil
    have hempty : m.held.remove (fun key =>
        (prefixed keysPrefix).hasPrefix key && true) = Contents.empty := by
      apply Contents.remove_all
      intro key _
      rw [Bool.and_true]
      unfold CacheStore.hasPrefix
      rw [not_not.mp hnil]
      rfl
    rw [hempty]
    exact ⟨congrArg (recordPurge none) hs.log,
      (h.clear s.held m.held hs.held).right⟩

end Calls

section Runs

variable {strategy : RelatedStrategy} {lower : CaseMapping}
  {provider : CacheProvider σ} {Holds : σ -> Contents -> Prop}
  {keysPrefix : JsString} {around : Surroundings σ} {s : State σ}
  {m : State Contents}

theorem Operation.perform_agrees (h : Contract provider Holds)
    (hs : Agrees Holds s m) (op : Operation) :
    (op.perform strategy lower (prefixed keysPrefix) provider s).1.isOk =
        op.buildable strategy lower ∧
      Agrees Holds
        (op.perform strategy lower (prefixed keysPrefix) provider s).2
        (op.effect strategy lower (prefixed keysPrefix) m) := by
  have husable := @not_unusable σ provider Holds keysPrefix s m h hs
  cases op with
  | get key =>
      have hheld := (h.get ((prefixed keysPrefix).stored key) s.held m.held
        hs.held).right
      refine ⟨rfl, ?_⟩
      show Agrees Holds ((prefixed keysPrefix).readEntry provider key s).2 m
      unfold CacheStore.readEntry
      rw [if_neg husable]
      exact ⟨hs.log, hheld⟩
  | keys =>
      rcases @keys_agrees σ provider Holds keysPrefix s m h hs with
        ⟨listed, s', hkeys, _, hs'⟩
      show (((prefixed keysPrefix).keys provider s).1.map _).isOk = true ∧
        Agrees Holds ((prefixed keysPrefix).keys provider s).2 m
      rw [hkeys]
      exact ⟨rfl, hs'⟩
  | set key val maxAge type =>
      rcases h.set ((prefixed keysPrefix).stored key) (serialize val type)
        maxAge s.held m.held hs.held with ⟨hanswer, hheld⟩
      show ((prefixed keysPrefix).set provider key val maxAge type s).1.isOk =
          true ∧
        Agrees Holds ((prefixed keysPrefix).set provider key val maxAge type s).2 _
      unfold CacheStore.set
      rw [if_neg husable]
      show (returned (provider.set _ _ _ s.held).1).isOk = true ∧ _
      rw [hanswer]
      exact ⟨rfl, hs.log, hheld⟩
  | del key =>
      rcases h.del ((prefixed keysPrefix).stored key) s.held m.held hs.held with
        ⟨hanswer, hheld⟩
      show ((prefixed keysPrefix).del provider key s).1.isOk = true ∧
        Agrees Holds ((prefixed keysPrefix).del provider key s).2 _
      unfold CacheStore.del
      rw [if_neg husable]
      show (returned (provider.del _ s.held).1).isOk = true ∧ _
      rw [hanswer]
      exact ⟨rfl, hs.log, hheld⟩
  | delMany keys => exact delMany_agrees h hs keys
  | clearByRegexp regExps => exact clearByRegexp_agrees h hs regExps
  | clearByUid uid params wildcard =>
      simp only [Operation.perform, CacheStore.clearByUid,
        CacheStore.clearByPatterns, Operation.effect, Operation.buildable]
      cases strategy.clearPatterns lower uid params wildcard with
      | error e => exact ⟨rfl, hs⟩
      | ok regExps => exact clearByRegexp_agrees h hs regExps
  | reset => exact reset_agrees h hs

theorem get_agrees (h : Contract provider Holds) (hs : Agrees Holds s m)
    (key : JsString) :
    (prefixed keysPrefix).get provider key s =
      m.read (prefixed keysPrefix) key := by
  have hanswer := (h.get ((prefixed keysPrefix).stored key) s.held m.held
    hs.held).left
  unfold CacheStore.get CacheStore.readEntry State.read
  rw [if_neg (not_unusable h hs)]
  simp only [hanswer]
  cases m.held ((prefixed keysPrefix).stored key) <;> rfl

theorem get_clearByRegexp (h : Contract provider Holds) (hs : Agrees Holds s m)
    (regExps : List Pattern) (key : JsString) :
    (prefixed keysPrefix).get provider key
        ((prefixed keysPrefix).clearByRegexp provider regExps s).2 =
      if CacheStore.shouldDel regExps key then none
      else (prefixed keysPrefix).get provider key s := by
  rw [get_agrees h (clearByRegexp_agrees h hs regExps).right, get_agrees h hs]
  unfold State.read
  simp only [purged, Contents.remove, hasPrefix_stored, stripPrefix_stored,
    Bool.true_and]
  cases CacheStore.shouldDel regExps key <;> rfl

theorem Happening.perform_agrees (h : Contract provider Holds)
    (hfair : around.Fair Holds) (hs : Agrees Holds s m)
    (happening : Happening) :
    Agrees Holds
      (happening.perform strategy lower (prefixed keysPrefix) provider
        around s)
      (happening.effect strategy lower (prefixed keysPrefix) m) := by
  cases happening with
  | call op => exact (op.perform_agrees h hs).right
  | expire key => exact ⟨hs.log, hfair.expire key s.held m.held hs.held⟩
  | tidy => exact ⟨hs.log, hfair.tidy s.held m.held hs.held⟩

/-- A run over the provider is the run over what it holds. -/
theorem performAll_agrees (h : Contract provider Holds)
    (hfair : around.Fair Holds) (happenings : List Happening)
    (hs : Agrees Holds s m) :
    Agrees Holds
      (happenings.foldl
        (Happening.perform strategy lower (prefixed keysPrefix) provider
          around) s)
      (happenings.foldl
        (Happening.effect strategy lower (prefixed keysPrefix)) m) := by
  induction happenings generalizing s m with
  | nil => exact hs
  | cons happening rest ih =>
      exact ih (happening.perform_agrees h hfair hs)

end Runs

/-!
## The defaults of the base class
-/

/-- `Promise.all` of a batch: every call is made, unless one throws. -/
def delBatch (provider : CacheProvider σ) :
    List JsString -> σ -> Answer Unit × σ
  | [], held => (Answer.value (), held)
  | key :: rest, held =>
      match provider.del key held with
      | (Answer.value _, held) => delBatch provider rest held
      | (Answer.rejected, held) =>
          (Answer.rejected, (delBatch provider rest held).2)
      | (Answer.thrown, held) => (Answer.rejected, held)

def delBatches (provider : CacheProvider σ) :
    List (List JsString) -> σ -> Answer Unit × σ
  | [], held => (Answer.value (), held)
  | batch :: rest, held =>
      match delBatch provider batch held with
      | (Answer.value _, held) => delBatches provider rest held
      | (_, held) => (Answer.rejected, held)

def CONCURRENCY : Nat := 16

def defaultDelMany (provider : CacheProvider σ) (keys : List JsString)
    (held : σ) : Answer Unit × σ :=
  delBatches provider (batches CONCURRENCY keys) held

def defaultClear (provider : CacheProvider σ) (held : σ) : Answer Unit × σ :=
  match provider.keys [] held with
  | (Answer.value listed, held) => provider.delMany listed held
  | (_, held) => (Answer.rejected, held)

/-- A provider that leaves both to the base class. -/
def withDefaults (provider : CacheProvider σ) : CacheProvider σ :=
  let listing := { provider with delMany := defaultDelMany provider }
  { listing with clear := defaultClear listing }

section Defaults

variable {provider : CacheProvider σ} {Holds : σ -> Contents -> Prop}
  {held : σ} {m : Contents}

theorem delBatch_holds
    (hdel : forall key held m, Holds held m ->
      (provider.del key held).1 = Answer.value () ∧
        Holds (provider.del key held).2 (m.remove (fun other => other = key)))
    (keys : List JsString) (hheld : Holds held m) :
    (delBatch provider keys held).1 = Answer.value () ∧
      Holds (delBatch provider keys held).2 (m.remove (fun key => key ∈ keys)) := by
  induction keys generalizing held m with
  | nil =>
      rw [Contents.remove_none (by simp)]
      exact ⟨rfl, hheld⟩
  | cons key rest ih =>
      rcases hdel key held m hheld with ⟨hanswer, hnext⟩
      have hrest := ih hnext
      have hboth : (m.remove (fun other => other = key)).remove
          (fun other => other ∈ rest) =
            m.remove (fun other => other ∈ key :: rest) := by
        rw [Contents.remove_remove]
        apply Contents.remove_congr
        intro other _
        simp
      rw [hboth] at hrest
      unfold delBatch
      rw [← Prod.mk.eta (p := provider.del key held), hanswer]
      exact hrest

theorem delBatches_holds
    (hdel : forall key held m, Holds held m ->
      (provider.del key held).1 = Answer.value () ∧
        Holds (provider.del key held).2 (m.remove (fun other => other = key)))
    (groups : List (List JsString)) (hheld : Holds held m) :
    (delBatches provider groups held).1 = Answer.value () ∧
      Holds (delBatches provider groups held).2
        (m.remove (fun key => key ∈ groups.flatten)) := by
  induction groups generalizing held m with
  | nil =>
      rw [Contents.remove_none (by simp)]
      exact ⟨rfl, hheld⟩
  | cons batch rest ih =>
      rcases delBatch_holds hdel batch hheld with ⟨hanswer, hnext⟩
      have hrest := ih hnext
      have hboth : (m.remove (fun other => other ∈ batch)).remove
          (fun other => other ∈ rest.flatten) =
            m.remove (fun other => other ∈ (batch :: rest).flatten) := by
        rw [Contents.remove_remove]
        apply Contents.remove_congr
        intro other _
        simp
      rw [hboth] at hrest
      unfold delBatches
      rw [← Prod.mk.eta (p := delBatch provider batch held), hanswer]
      exact hrest

/-- With the defaults of the base class a provider keeps to the contract. -/
theorem withDefaults_contract (h : Portable provider Holds) :
    Contract (withDefaults provider) Holds := by
  have hdelMany : forall keys held m, Holds held m ->
      (defaultDelMany provider keys held).1 = Answer.value () ∧
        Holds (defaultDelMany provider keys held).2
          (m.remove (fun key => key ∈ keys)) := by
    intro keys held m hheld
    have hbatches := delBatches_holds h.del (batches CONCURRENCY keys) hheld
    rw [flatten_batches (by decide)] at hbatches
    exact hbatches
  refine ⟨⟨h.ready, h.get, h.set, h.del, h.keys⟩, hdelMany, ?_⟩
  intro held m hheld
  rcases h.keys [] held m hheld with ⟨listed, hanswer, hlisted, hnext⟩
  have hcleared := hdelMany listed _ m hnext
  rw [Contents.remove_all
    (fun key hkey => decide_eq_true (hlisted key hkey))] at hcleared
  show (defaultClear _ held).1 = _ ∧ Holds (defaultClear _ held).2 _
  unfold defaultClear
  cases hcall : provider.keys [] held with
  | mk answer next =>
      rw [hcall] at hanswer hcleared
      simp only at hanswer
      subst hanswer
      exact hcleared

end Defaults

/-!
## The keyspace
-/

theorem keyspace_contract :
    Contract keyspace (fun held m => m = fun key => held.lookup key) := by
  refine ⟨⟨?_, ?_, ?_, ?_, ?_⟩, ?_, ?_⟩
  · intro held m _
    rfl
  · intro key held m hm
    subst hm
    exact ⟨rfl, rfl⟩
  · intro key val maxAge held m hm
    subst hm
    refine ⟨rfl, ?_⟩
    funext other
    unfold Contents.put
    by_cases hother : other = key
    · rw [if_pos hother, hother]
      exact (AList.lookup_insert held).symm
    · rw [if_neg hother]
      exact (AList.lookup_insert_ne hother).symm
  · intro key held m hm
    subst hm
    refine ⟨rfl, ?_⟩
    funext other
    unfold Contents.remove
    by_cases hother : other = key
    · rw [if_pos (decide_eq_true hother), hother]
      exact (AList.lookup_erase key held).symm
    · rw [if_neg (by simpa using hother)]
      exact (AList.lookup_erase_ne hother).symm
  · intro keysPrefix held m hm
    subst hm
    refine ⟨held.keys, rfl, ?_, rfl⟩
    intro key hkey
    apply AList.mem_keys.mp
    exact Decidable.byContradiction fun hmem =>
      hkey (AList.lookup_eq_none.mpr hmem)
  · intro keys held m hm
    subst hm
    refine ⟨rfl, ?_⟩
    funext key
    unfold Contents.remove
    by_cases hkey : key ∈ keys
    · rw [if_pos (decide_eq_true hkey)]
      exact (lookup_eraseAll_of_mem hkey held).symm
    · rw [if_neg (by simpa using hkey)]
      exact (lookup_eraseAll_of_not_mem hkey held).symm
  · intro held m _
    exact ⟨rfl, rfl⟩

def keyspaceAround : Surroundings Keyspace where
  expire key held := held.erase key
  tidy held := held

theorem keyspaceAround_fair :
    keyspaceAround.Fair (fun held m => m = fun key => held.lookup key) := by
  constructor
  · intro key held m hm
    exact (keyspace_contract.del key held m hm).right
  · exact fun _ _ hm => hm

/-!
## Stores over such providers
-/

section Stores

variable (strategy : RelatedStrategy) (lower : CaseMapping)
  (keysPrefix : JsString)

/--
What a store shows after a run: the contents that the run leaves behind, to
every read and, beside keys with nothing behind them, to `keys`; no purge rejects
unless its own patterns cannot be built.
-/
structure ShowsRun (provider : CacheProvider σ) (around : Surroundings σ)
    (happenings : List Happening) (s : State σ)
    (m : State Contents) : Prop where
  log : (happenings.foldl (Happening.perform strategy lower
      (prefixed keysPrefix) provider around) s).log =
    (happenings.foldl (Happening.effect strategy lower
      (prefixed keysPrefix)) m).log
  read : forall key, (prefixed keysPrefix).get provider key
      (happenings.foldl (Happening.perform strategy lower
        (prefixed keysPrefix) provider around) s) =
    (happenings.foldl (Happening.effect strategy lower
      (prefixed keysPrefix)) m).read (prefixed keysPrefix) key
  listed : exists names, ((prefixed keysPrefix).keys provider
      (happenings.foldl (Happening.perform strategy lower
        (prefixed keysPrefix) provider around) s)).1 = Except.ok (some names) ∧
    forall key, (happenings.foldl (Happening.effect strategy lower
        (prefixed keysPrefix)) m).held ((prefixed keysPrefix).stored key) ≠ none ->
      key ∈ names
  settles : forall op : Operation, (op.perform strategy lower
      (prefixed keysPrefix) provider
      (happenings.foldl (Happening.perform strategy lower
        (prefixed keysPrefix) provider around) s)).1.isOk =
    op.buildable strategy lower

end Stores

section Shown

variable {strategy : RelatedStrategy} {lower : CaseMapping}
  {provider : CacheProvider σ} {Holds : σ -> Contents -> Prop}
  {keysPrefix : JsString} {around : Surroundings σ} {s : State σ}
  {m : State Contents}

theorem showsRun_of_contract (h : Contract provider Holds)
    (hfair : around.Fair Holds) (happenings : List Happening)
    (hs : Agrees Holds s m) :
    ShowsRun strategy lower keysPrefix provider around happenings s m := by
  have hrun := @performAll_agrees _ strategy lower _ _ keysPrefix _ _ _
    h hfair happenings hs
  refine ⟨hrun.log, get_agrees h hrun, ?_,
    fun op => (op.perform_agrees h hrun).left⟩
  rcases @keys_agrees σ provider Holds keysPrefix _ _ h hrun with
    ⟨listed, s', hkeys, hlisted, _⟩
  rw [hkeys]
  exact ⟨_, rfl, fun key hkey => mem_logicalKeys.mpr (hlisted _ hkey)⟩

/--
A provider that leaves `delMany` and `clear` to the base class serves a store
as a map would, whatever its other calls do underneath.
-/
theorem withDefaults_showsRun (h : Portable provider Holds)
    (hfair : around.Fair Holds) (happenings : List Happening)
    (hs : Agrees Holds s m) :
    ShowsRun strategy lower keysPrefix (withDefaults provider) around
      happenings s m :=
  showsRun_of_contract (withDefaults_contract h) hfair happenings hs

end Shown

theorem withDefaults_showsRun_keyspace :
    ShowsRun noContentTypes CaseMapping.latin1 "blog".toList
      (withDefaults keyspace) keyspaceAround
      [Happening.call (Operation.set "/a".toList JsonValue.null 0 none),
        Happening.call Operation.keys, Happening.call Operation.reset]
      { log := PurgeLog.init, held := ∅ }
      { log := PurgeLog.init, held := Contents.empty } :=
  withDefaults_showsRun keyspace_contract.toPortable keyspaceAround_fair _
    ⟨rfl, rfl⟩

end Store
end RestCache
