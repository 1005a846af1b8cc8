import RestCache.Config.ClearPatterns
import RestCache.Store.CacheEntry
import RestCache.Store.PurgeLog

/-!
# The cache store

The operations of the store over any provider, whose calls may throw or return
a promise that rejects.  A store keeps its entries under its prefix, in a
keyspace that it may share with others.
-/

namespace RestCache
namespace Store

open Foundation
open Config

/-!
## Providers
-/

/-- How a call ends: it throws, or the promise it returns resolves or rejects. -/
inductive Answer (α : Type) where
  | value (a : α)
  | thrown
  | rejected
deriving DecidableEq

/-- The methods of a provider, which may change what it holds in any way. -/
structure CacheProvider (σ : Type) where
  ready : σ -> Bool
  get : JsString -> σ -> Answer (Option JsString) × σ
  set : JsString -> JsString -> Nat -> σ -> Answer Unit × σ
  del : JsString -> σ -> Answer Unit × σ
  delMany : List JsString -> σ -> Answer Unit × σ
  keys : JsString -> σ -> Answer (List JsString) × σ
  clear : σ -> Answer Unit × σ

inductive Rejection where
  | provider
  | clear (e : ClearError)
deriving DecidableEq

abbrev Settled (α : Type) :=
  Except Rejection α

/-- `return await call` in a `try`: every failure is caught and logged. -/
def awaited {α : Type} : Answer α -> Settled (Option α)
  | Answer.value a => Except.ok (some a)
  | Answer.thrown => Except.ok none
  | Answer.rejected => Except.ok none

theorem awaited_resolves {α : Type} (answer : Answer α) :
    (awaited answer).isOk = true := by
  cases answer <;> rfl

/-- `return call` in a `try`, which is left before the promise settles. -/
def returned {α : Type} : Answer α -> Settled (Option α)
  | Answer.value a => Except.ok (some a)
  | Answer.thrown => Except.ok none
  | Answer.rejected => Except.error Rejection.provider

/-!
## Operations
-/

/-- A store: whether `init` was called, and the prefix of its keys. -/
structure CacheStore where
  initialized : Bool
  keysPrefix : JsString
deriving DecidableEq

structure State (σ : Type) where
  log : PurgeLog
  held : σ

def State.record {σ : Type} (s : State σ) (regExps : RegExps) : State σ :=
  { s with log := recordPurge regExps s.log }

namespace CacheStore

section Operations

variable {σ : Type} (self : CacheStore) (provider : CacheProvider σ)

def unusable (s : State σ) : Bool :=
  !self.initialized || !provider.ready s.held

def hasPrefix (key : JsString) : Bool :=
  self.keysPrefix.isPrefixOf key

def stripPrefix (key : JsString) : JsString :=
  key.drop self.keysPrefix.length

def stored (key : JsString) : JsString :=
  self.keysPrefix ++ key

def readEntry (key : JsString) (s : State σ) :
    Option CacheEntry × State σ :=
  if self.unusable provider s then
    (none, s)
  else
    let z := provider.get (self.stored key) s.held
    let entry :=
      match z.1 with
      | Answer.value (some text) => (deserializeEntry text).join
      | _ => none
    (entry, { s with held := z.2 })

def get (key : JsString) (s : State σ) : Option JsonValue :=
  (self.readEntry provider key s).1.map CacheEntry.data

def set (key : JsString) (val : JsonValue) (maxAge : Nat)
    (type : Option JsString) (s : State σ) : Settled (Option Unit) × State σ :=
  if self.unusable provider s then
    (Except.ok none, s)
  else
    let z := provider.set (self.stored key) (serialize val type) maxAge s.held
    (returned z.1, { s with held := z.2 })

def del (key : JsString) (s : State σ) : Settled (Option Unit) × State σ :=
  if self.unusable provider s then
    (Except.ok none, s)
  else
    let z := provider.del (self.stored key) s.held
    (returned z.1, { s with held := z.2 })

def delMany (keys : List JsString) (s : State σ) :
    Settled (Option Unit) × State σ :=
  if self.unusable provider s then
    (Except.ok none, s)
  else if keys = [] then
    (Except.ok none, s)
  else
    let z := provider.delMany (keys.map self.stored) s.held
    (awaited z.1, { s with held := z.2 })

def logicalKeys (listed : List JsString) : List JsString :=
  if self.keysPrefix = [] then listed
  else (listed.filter self.hasPrefix).map self.stripPrefix

def keys (s : State σ) : Settled (Option (List JsString)) × State σ :=
  if self.unusable provider s then
    (Except.ok none, s)
  else
    let z := provider.keys self.keysPrefix s.held
    ((returned z.1).map (Option.map self.logicalKeys), { s with held := z.2 })

def reset (s : State σ) : Settled (Option Unit) × State σ :=
  if self.unusable provider s then
    (Except.ok none, s)
  else if self.keysPrefix ≠ [] then
    match self.keys provider (s.record none) with
    | (Except.error _, s) => (Except.ok none, s)
    | (Except.ok listed, s) => self.delMany provider (listed.getD []) s
  else
    let z := provider.clear s.held
    (awaited z.1, { s.record none with held := z.2 })

def shouldDel (regExps : List Pattern) (key : JsString) : Bool :=
  regExps.any (fun r => r.test key)

def clearByRegexp (regExps : List Pattern) (s : State σ) :
    Settled (Option Unit) × State σ :=
  match self.keys provider (s.record (some regExps)) with
  | (Except.error e, s) => (Except.error e, s)
  | (Except.ok listed, s) =>
      self.delMany provider ((listed.getD []).filter (shouldDel regExps)) s

/-- Clear by patterns that are built first, which may throw. -/
def clearByPatterns (patterns : Except ClearError (List Pattern))
    (s : State σ) : Settled (Option Unit) × State σ :=
  match patterns with
  | Except.error e => (Except.error (Rejection.clear e), s)
  | Except.ok regExps => self.clearByRegexp provider regExps s

def clearByUid (strategy : RelatedStrategy) (lower : CaseMapping)
    (uid : JsString) (params : RouteParams) (wildcard : Bool) (s : State σ) :
    Settled (Option Unit) × State σ :=
  self.clearByPatterns provider
    (strategy.clearPatterns lower uid params wildcard) s

end Operations

end CacheStore

/-!
## Failures
-/

namespace CacheStore

variable {σ : Type} {self : CacheStore} {provider : CacheProvider σ}

theorem delMany_resolves (keys : List JsString) (s : State σ) :
    (self.delMany provider keys s).1.isOk = true := by
  unfold delMany
  split
  · rfl
  · split
    · rfl
    · exact awaited_resolves _

def KeysReject (self : CacheStore) (provider : CacheProvider σ) (held : σ) :
    Prop :=
  self.initialized = true ∧ provider.ready held = true ∧
    (provider.keys self.keysPrefix held).1 = Answer.rejected

theorem keys_settles (s : State σ) :
    (self.keys provider s).1 = Except.error Rejection.provider <->
      KeysReject self provider s.held := by
  unfold keys KeysReject unusable
  cases self.initialized with
  | false => simp
  | true =>
      cases provider.ready s.held with
      | false => simp
      | true =>
          cases hanswer : (provider.keys self.keysPrefix s.held).1 <;>
            simp [hanswer, returned, Except.map]

theorem keys_error {s : State σ} {e : Rejection}
    (h : (self.keys provider s).1 = Except.error e) : e = Rejection.provider := by
  unfold keys at h
  split at h
  · simp at h
  · cases hanswer : (provider.keys self.keysPrefix s.held).1 with
    | value listed => simp [hanswer, returned, Except.map] at h
    | thrown => simp [hanswer, returned, Except.map] at h
    | rejected =>
        simp only [hanswer, returned, Except.map, Except.error.injEq] at h
        exact h.symm

/-- A purge by patterns rejects exactly when listing the keys does. -/
theorem clearByRegexp_settles (regExps : List Pattern) (s : State σ) :
    (KeysReject self provider s.held ∧
      (self.clearByRegexp provider regExps s).1 =
        Except.error Rejection.provider) ∨
    (¬ KeysReject self provider s.held ∧
      (self.clearByRegexp provider regExps s).1.isOk = true) := by
  have hkeys := @keys_settles σ self provider (s.record (some regExps))
  unfold clearByRegexp
  cases hresult : self.keys provider (s.record (some regExps)) with
  | mk settled s' =>
      rw [hresult] at hkeys
      cases settled with
      | error e =>
          have he : e = Rejection.provider := by
            apply @keys_error σ self provider (s.record (some regExps)) e
            rw [hresult]
          subst he
          exact Or.inl ⟨hkeys.mp rfl, rfl⟩
      | ok listed =>
          refine Or.inr ⟨?_, delMany_resolves _ s'⟩
          intro hreject
          exact absurd (hkeys.mpr hreject) (by simp)

/-- No failure of the provider makes a reset reject. -/
theorem reset_resolves (s : State σ) :
    (self.reset provider s).1.isOk = true := by
  unfold reset
  split
  · rfl
  · split
    · split
      · rfl
      · exact delMany_resolves _ _
    · exact awaited_resolves _

end CacheStore

end Store
end RestCache
