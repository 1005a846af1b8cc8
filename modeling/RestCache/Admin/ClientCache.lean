import Mathlib.Logic.Function.Basic
import RestCache.Foundation.Transition
import RestCache.Foundation.UriComponent

/-!
# The cache of the admin panel

The hooks of the admin panel share one entry for each endpoint.  A request that
a subscriber starts writes what it brings into the entry whenever it completes,
also after the entry was invalidated.
-/

namespace RestCache
namespace Admin

open Foundation
open Transition

/-- A value in an entry.  The entry does not hold the number of the request. -/
structure Brought (value : Type _) where
  request : Nat
  value : value

structure Entry (data error : Type _) where
  data : Option (Brought data)
  error : Option (Brought error)
  promise : Option Nat
  version : Nat

/-! `.then` or `.catch` writes to the entry, and `.finally` clears the promise. -/

inductive Phase where
  | pending
  | settled
  | finished
deriving DecidableEq

structure Request where
  key : JsString
  version : Nat
  phase : Phase

structure Panel (data error : Type _) where
  cache : JsString -> Option (Entry data error)
  request : Nat -> Option Request
  started : Nat

/-- The value of a response or an error may be undefined. -/
inductive Event (data error : Type _) where
  | subscribe (key : JsString)
  | fetch (key : JsString)
  | resolved (i : Nat) (value : Option data)
  | rejected (i : Nat) (value : Option error)
  | settled (i : Nat)
  | invalidateCache (keys : List JsString)

variable {data error : Type _}

namespace Entry

def init : Entry data error where
  data := none
  error := none
  promise := none
  version := 0

def invalidated (entry : Entry data error) : Entry data error where
  data := none
  error := none
  promise := none
  version := entry.version + 1

def Has (entry : Entry data error) (i : Nat) : Prop :=
  (exists value, entry.data = some { request := i, value }) ∨
    exists value, entry.error = some { request := i, value }

end Entry

namespace Panel

def init : Panel data error where
  cache _ := none
  request _ := none
  started := 0

def write (s : Panel data error) (key : JsString)
    (entry : Entry data error) : Panel data error :=
  { s with cache := Function.update s.cache key (some entry) }

def put (s : Panel data error) (entry : Entry data error) (i : Nat)
    (request : Request) : Panel data error :=
  { s.write request.key entry with
    request := Function.update s.request i (some request) }

def entryFor (s : Panel data error) (key : JsString) : Panel data error :=
  match s.cache key with
  | some _ => s
  | none => s.write key Entry.init

def fetch (s : Panel data error) (key : JsString) :
    Option (Panel data error) :=
  (s.cache key).bind fun entry =>
    if entry.data.isSome ∨ entry.error.isSome ∨ entry.promise.isSome then
      none
    else
      let request := { key, version := entry.version, phase := Phase.pending }
      some { s.put { entry with promise := some s.started } s.started request with
        started := s.started + 1 }

def callback (s : Panel data error) (i : Nat) (phase next : Phase)
    (write : Entry data error -> Entry data error) :
    Option (Panel data error) :=
  (s.request i).bind fun request =>
    (s.cache request.key).bind fun entry =>
      if request.phase = phase then
        some (s.put (write entry) i { request with phase := next })
      else
        none

def resolved (s : Panel data error) (i : Nat) (value : Option data) :
    Option (Panel data error) :=
  s.callback i Phase.pending Phase.settled fun entry =>
    { entry with data := value.map (Brought.mk i), error := none }

def rejected (s : Panel data error) (i : Nat) (value : Option error) :
    Option (Panel data error) :=
  s.callback i Phase.pending Phase.settled fun entry =>
    { entry with error := value.map (Brought.mk i) }

def settled (s : Panel data error) (i : Nat) : Option (Panel data error) :=
  s.callback i Phase.settled Phase.finished fun entry =>
    { entry with promise := none }

def invalidate (s : Panel data error) (key : JsString) : Panel data error :=
  match s.cache key with
  | some entry => s.write key entry.invalidated
  | none => s

def invalidateCache (s : Panel data error) (keys : List JsString) :
    Panel data error :=
  keys.foldl invalidate s

def step (s : Panel data error) :
    Event data error -> Option (Panel data error)
  | Event.subscribe key => some (s.entryFor key)
  | Event.fetch key => s.fetch key
  | Event.resolved i value => s.resolved i value
  | Event.rejected i value => s.rejected i value
  | Event.settled i => s.settled i
  | Event.invalidateCache keys => some (s.invalidateCache keys)

end Panel

/-!
## What is claimed
-/

/-- The request is one for the key, and its promise has not settled yet. -/
def Outstanding (s : Panel data error) (key : JsString) (i : Nat) : Prop :=
  exists request, s.request i = some request ∧ request.key = key ∧
    request.phase ≠ Phase.finished

/-- The request was started after the last invalidation of its entry. -/
def Current (s : Panel data error) (i : Nat) : Prop :=
  exists request entry, s.request i = some request ∧
    s.cache request.key = some entry ∧ request.version = entry.version

/-- With no request outstanding, what the entry holds is current. -/
def HoldsCurrent (s : Panel data error) : Prop :=
  forall key entry i, s.cache key = some entry ->
    (forall j, ¬ Outstanding s key j) -> entry.Has i -> Current s i

/-- The request completes and leaves the promise of any other one alone. -/
def LeavesPromises (s : Panel data error) (i : Nat) : Prop :=
  forall t key entry j, s.settled i = some t -> s.cache key = some entry ->
    entry.promise = some j -> j ≠ i -> Outstanding s key j ->
    exists entry', t.cache key = some entry' ∧ entry'.promise = some j

/-- The step is no callback of a request from before an invalidation. -/
def InTime (s : Panel data error) : Event data error -> Prop
  | Event.resolved i _ => Current s i
  | Event.rejected i _ => Current s i
  | Event.settled i => Current s i
  | _ => True

/-!
## The invariant

The promise of an entry is that of the one request which is current and has not
settled yet, and what an entry holds was brought by current requests.
-/

structure Tracked (s : Panel data error) : Prop where
  known : forall i request, s.request i = some request ->
    i < s.started ∧ exists entry, s.cache request.key = some entry ∧
      request.version ≤ entry.version
  promised : forall i request entry, s.request i = some request ->
    s.cache request.key = some entry -> request.version = entry.version ->
    request.phase ≠ Phase.finished -> entry.promise = some i
  has : forall key entry i, s.cache key = some entry -> entry.Has i ->
    exists request, s.request i = some request ∧ request.key = key ∧
      request.version = entry.version

theorem not_has_init (i : Nat) : ¬ (Entry.init : Entry data error).Has i := by
  intro h
  rcases h with ⟨value, hvalue⟩ | ⟨value, hvalue⟩
  · exact absurd hvalue (by simp [Entry.init])
  · exact absurd hvalue (by simp [Entry.init])

theorem not_has_invalidated (entry : Entry data error) (i : Nat) :
    ¬ entry.invalidated.Has i := by
  intro h
  rcases h with ⟨value, hvalue⟩ | ⟨value, hvalue⟩
  · exact absurd hvalue (by simp [Entry.invalidated])
  · exact absurd hvalue (by simp [Entry.invalidated])

theorem tracked_init : Tracked (Panel.init : Panel data error) where
  known i request h := absurd h (by simp [Panel.init])
  promised i request entry h := absurd h (by simp [Panel.init])
  has key entry i h := absurd h (by simp [Panel.init])

section Steps

variable {s t : Panel data error}

@[simp]
theorem write_self (key : JsString) (entry : Entry data error) :
    (s.write key entry).cache key = some entry :=
  Function.update_self _ _ _

theorem write_of_ne {key key' : JsString} (entry : Entry data error)
    (h : key' ≠ key) : (s.write key entry).cache key' = s.cache key' :=
  Function.update_of_ne h _ _

theorem tracked_write {key : JsString} {entry : Entry data error}
    (h : Tracked s) (hempty : forall i, ¬ entry.Has i)
    (hnewer : forall i request, s.request i = some request ->
      request.key = key -> request.version < entry.version) :
    Tracked (s.write key entry) := by
  constructor
  · intro i request hrequest
    rcases h.known i request hrequest with ⟨hlt, old, hold, hle⟩
    refine ⟨hlt, ?_⟩
    by_cases hkey : request.key = key
    · exact ⟨entry, by rw [hkey, write_self],
        Nat.le_of_lt (hnewer i request hrequest hkey)⟩
    · exact ⟨old, by rw [write_of_ne entry hkey, hold], hle⟩
  · intro i request found hrequest hfound hcurrent hphase
    by_cases hkey : request.key = key
    · rw [hkey, write_self, Option.some.injEq] at hfound
      subst hfound
      have hlt := hnewer i request hrequest hkey
      exact absurd hcurrent (Nat.ne_of_lt hlt)
    · rw [write_of_ne entry hkey] at hfound
      exact h.promised i request found hrequest hfound hcurrent hphase
  · intro key' found i hfound hhas
    by_cases hkey : key' = key
    · rw [hkey, write_self, Option.some.injEq] at hfound
      subst hfound
      exact absurd hhas (hempty i)
    · rw [write_of_ne entry hkey] at hfound
      exact h.has key' found i hfound hhas

theorem tracked_entryFor (h : Tracked s) (key : JsString) :
    Tracked (s.entryFor key) := by
  rw [Panel.entryFor]
  cases hcache : s.cache key with
  | some entry => exact h
  | none =>
      apply tracked_write h not_has_init
      intro i request hrequest hkey
      rcases (h.known i request hrequest).right with ⟨entry, hentry, _⟩
      rw [hkey, hcache] at hentry
      exact absurd hentry (by simp)

theorem tracked_invalidate (h : Tracked s) (key : JsString) :
    Tracked (s.invalidate key) := by
  rw [Panel.invalidate]
  cases hcache : s.cache key with
  | none => exact h
  | some entry =>
      apply tracked_write h (not_has_invalidated entry)
      intro i request hrequest hkey
      rcases (h.known i request hrequest).right with ⟨found, hfound, hle⟩
      rw [hkey, hcache, Option.some.injEq] at hfound
      rw [← hfound] at hle
      exact Nat.lt_succ_of_le hle

theorem tracked_invalidateCache (h : Tracked s) (keys : List JsString) :
    Tracked (s.invalidateCache keys) := by
  rw [Panel.invalidateCache]
  induction keys generalizing s with
  | nil => exact h
  | cons key keys ih => exact ih (tracked_invalidate h key)

/-- What a callback or a new request may do to the entry it writes. -/
structure Puts (s : Panel data error) (entry entry' : Entry data error)
    (i : Nat) (request : Request) : Prop where
  found : s.cache request.key = some entry
  version : entry'.version = entry.version
  current : request.version = entry.version
  same : forall old, s.request i = some old -> old.key = request.key
  own : request.phase ≠ Phase.finished -> entry'.promise = some i
  others : forall j, j ≠ i -> entry.promise = some j ->
    entry'.promise = some j
  has : forall j, entry'.Has j -> j = i ∨ entry.Has j

section Put

variable {entry entry' : Entry data error} {request : Request} {i : Nat}

theorem put_request_self :
    (s.put entry' i request).request i = some request :=
  Function.update_self _ _ _

theorem put_request_of_ne {j : Nat} (hj : j ≠ i) :
    (s.put entry' i request).request j = s.request j :=
  Function.update_of_ne hj _ _

theorem put_cache_self (i : Nat) :
    (s.put entry' i request).cache request.key = some entry' :=
  Function.update_self _ _ _

theorem put_cache_of_ne {key : JsString} (hkey : key ≠ request.key) :
    (s.put entry' i request).cache key = s.cache key :=
  Function.update_of_ne hkey _ _

theorem put_known (h : Tracked s) (hputs : Puts s entry entry' i request)
    {j : Nat} {other : Request} (hother : s.request j = some other) :
    exists found, (s.put entry' i request).cache other.key = some found ∧
      other.version ≤ found.version := by
  rcases (h.known j other hother).right with ⟨old, hold, hle⟩
  by_cases hkey : other.key = request.key
  · rw [hkey, hputs.found, Option.some.injEq] at hold
    subst hold
    exact ⟨entry', by rw [hkey, put_cache_self], by rw [hputs.version]; exact hle⟩
  · exact ⟨old, by rw [put_cache_of_ne hkey, hold], hle⟩

theorem put_promised (h : Tracked s) (hputs : Puts s entry entry' i request)
    {j : Nat} {other : Request} {found : Entry data error}
    (hother : (s.put entry' i request).request j = some other)
    (hfound : (s.put entry' i request).cache other.key = some found)
    (hcurrent : other.version = found.version)
    (hphase : other.phase ≠ Phase.finished) : found.promise = some j := by
  by_cases hj : j = i
  · subst hj
    rw [put_request_self, Option.some.injEq] at hother
    subst hother
    rw [put_cache_self, Option.some.injEq] at hfound
    subst hfound
    exact hputs.own hphase
  · rw [put_request_of_ne hj] at hother
    by_cases hkey : other.key = request.key
    · rw [hkey, put_cache_self, Option.some.injEq] at hfound
      subst hfound
      rw [hputs.version] at hcurrent
      have hentry := hputs.found
      rw [← hkey] at hentry
      exact hputs.others j hj
        (h.promised j other entry hother hentry hcurrent hphase)
    · rw [put_cache_of_ne hkey] at hfound
      exact h.promised j other found hother hfound hcurrent hphase

theorem put_has (h : Tracked s) (hputs : Puts s entry entry' i request)
    {key : JsString} {found : Entry data error} {j : Nat}
    (hfound : (s.put entry' i request).cache key = some found)
    (hhas : found.Has j) :
    exists other, (s.put entry' i request).request j = some other ∧
      other.key = key ∧ other.version = found.version := by
  by_cases hkey : key = request.key
  · subst hkey
    rw [put_cache_self, Option.some.injEq] at hfound
    subst hfound
    by_cases hj : j = i
    · subst hj
      exact ⟨request, put_request_self, rfl,
        hputs.current.trans hputs.version.symm⟩
    · rcases h.has request.key entry j hputs.found
        ((hputs.has j hhas).resolve_left hj) with ⟨old, hold, hkey, hcurrent⟩
      exact ⟨old, by rw [put_request_of_ne hj, hold], hkey,
        hcurrent.trans hputs.version.symm⟩
  · rw [put_cache_of_ne hkey] at hfound
    rcases h.has key found j hfound hhas with ⟨old, hold, hold', hcurrent⟩
    by_cases hj : j = i
    · -- request `i` was for the key that is written
      subst hj
      rw [← hold', hputs.same old hold] at hkey
      exact absurd rfl hkey
    · exact ⟨old, by rw [put_request_of_ne hj, hold], hold', hcurrent⟩

theorem tracked_put {n : Nat} (h : Tracked s)
    (hputs : Puts s entry entry' i request) (hle : s.started ≤ n)
    (hlt : i < n) : Tracked { s.put entry' i request with started := n } := by
  constructor
  · intro j other hother
    change (s.put entry' i request).request j = some other at hother
    by_cases hj : j = i
    · subst hj
      rcases Option.some.inj (put_request_self.symm.trans hother) with rfl
      exact ⟨hlt, entry', put_cache_self j,
        Nat.le_of_eq (hputs.current.trans hputs.version.symm)⟩
    · rw [put_request_of_ne hj] at hother
      exact ⟨Nat.lt_of_lt_of_le (h.known j other hother).left hle,
        put_known h hputs hother⟩
  · intro j other found hother hfound hcurrent hphase
    exact put_promised h hputs hother hfound hcurrent hphase
  · intro key found j hfound hhas
    exact put_has h hputs hfound hhas

end Put

theorem tracked_fetch {key : JsString} (h : Tracked s)
    (hstep : s.fetch key = some t) : Tracked t := by
  unfold Panel.fetch at hstep
  cases hentry : s.cache key with
  | none => simp [hentry] at hstep
  | some entry =>
      simp only [hentry, Option.bind_some] at hstep
      split at hstep
      · exact absurd hstep (by simp)
      · rename_i hidle
        rw [not_or, not_or, Option.not_isSome_iff_eq_none,
          Option.not_isSome_iff_eq_none, Option.not_isSome_iff_eq_none] at hidle
        rcases hidle with ⟨hdata, herror, hpromise⟩
        have hnew : s.request s.started = none := by
          rw [Option.eq_none_iff_forall_not_mem]
          intro request hrequest
          exact Nat.lt_irrefl _ (h.known _ request hrequest).left
        rw [← Option.some.inj hstep]
        refine tracked_put h ⟨hentry, rfl, rfl, ?_, fun _ => rfl, ?_,
          fun j hj => Or.inr hj⟩ (Nat.le_succ _) (Nat.lt_succ_self _)
        · intro old hold
          rw [hnew] at hold
          exact absurd hold (by simp)
        · intro j _ hj
          rw [hpromise] at hj
          exact absurd hj (by simp)

theorem tracked_callback {i : Nat} {phase next : Phase}
    {write : Entry data error -> Entry data error} (h : Tracked s)
    (hstep : s.callback i phase next write = some t) (hcurrent : Current s i)
    (hphase : phase ≠ Phase.finished)
    (hversion : forall entry, (write entry).version = entry.version)
    (hpromise : forall entry, (write entry).promise = entry.promise ∨
      (next = Phase.finished ∧ (write entry).promise = none))
    (hhas : forall entry j, (write entry).Has j -> j = i ∨ entry.Has j) :
    Tracked t := by
  rcases hcurrent with ⟨request, entry, hrequest, hentry, hcur⟩
  simp only [Panel.callback, hrequest, hentry, Option.bind_some] at hstep
  split at hstep
  · rename_i hin
    have hheld := h.promised i request entry hrequest hentry hcur
      (fun hfinished => hphase (hin.symm.trans hfinished))
    rw [← Option.some.inj hstep]
    have hputs : Puts s entry (write entry) i { request with phase := next } := by
      refine ⟨hentry, hversion entry, hcur, ?_, ?_, ?_, hhas entry⟩
      · intro old hold
        rw [hrequest, Option.some.injEq] at hold
        show old.key = request.key
        rw [hold]
      · intro hnext
        rcases hpromise entry with hkept | ⟨hfinished, _⟩
        · rw [hkept, hheld]
        · exact absurd hfinished hnext
      · intro j hj hother
        rw [hheld, Option.some.injEq] at hother
        exact absurd hother.symm hj
    exact tracked_put h hputs (Nat.le_refl _) (h.known i request hrequest).left
  · exact absurd hstep (by simp)

theorem tracked_resolved {i : Nat} {value : Option data} (h : Tracked s)
    (hstep : s.resolved i value = some t) (hcurrent : Current s i) :
    Tracked t := by
  refine tracked_callback h hstep hcurrent (by decide) (fun _ => rfl)
    (fun _ => Or.inl rfl) ?_
  intro entry j hhas
  rcases hhas with ⟨v, hv⟩ | ⟨v, hv⟩
  · cases value with
    | none => exact absurd hv (by simp)
    | some w =>
        have hrequest := congrArg Brought.request (Option.some.inj hv)
        exact Or.inl hrequest.symm
  · exact absurd hv (by simp)

theorem tracked_rejected {i : Nat} {value : Option error} (h : Tracked s)
    (hstep : s.rejected i value = some t) (hcurrent : Current s i) :
    Tracked t := by
  refine tracked_callback h hstep hcurrent (by decide) (fun _ => rfl)
    (fun _ => Or.inl rfl) ?_
  intro entry j hhas
  rcases hhas with hdata | ⟨v, hv⟩
  · exact Or.inr (Or.inl hdata)
  · cases value with
    | none => exact absurd hv (by simp)
    | some w =>
        have hrequest := congrArg Brought.request (Option.some.inj hv)
        exact Or.inl hrequest.symm

theorem tracked_settled {i : Nat} (h : Tracked s)
    (hstep : s.settled i = some t) (hcurrent : Current s i) : Tracked t :=
  tracked_callback h hstep hcurrent (by decide) (fun _ => rfl)
    (fun _ => Or.inr ⟨rfl, rfl⟩) (fun _ _ hhas => Or.inr hhas)

theorem tracked_step {e : Event data error} (h : Tracked s)
    (hok : InTime s e) (hstep : s.step e = some t) : Tracked t := by
  cases e with
  | subscribe key =>
      rw [← Option.some.inj hstep]
      exact tracked_entryFor h key
  | fetch key => exact tracked_fetch h hstep
  | resolved i value => exact tracked_resolved h hstep hok
  | rejected i value => exact tracked_rejected h hstep hok
  | settled i => exact tracked_settled h hstep hok
  | invalidateCache keys =>
      rw [← Option.some.inj hstep]
      exact tracked_invalidateCache h keys

theorem tracked_of_reaches
    (h : Reaches Panel.step InTime (Panel.init : Panel data error) s) :
    Tracked s :=
  reaches_invariant tracked_init (fun _ _ _ => tracked_step) h

/-!
## Entries and promises
-/

theorem holdsCurrent_of_tracked (h : Tracked s) : HoldsCurrent s := by
  intro key entry i hentry _ hhas
  rcases h.has key entry i hentry hhas with ⟨request, hrequest, hkey, hcur⟩
  exact ⟨request, entry, hrequest, by rw [hkey, hentry], hcur⟩

theorem leavesPromises_of_tracked {i : Nat} (h : Tracked s)
    (hcurrent : Current s i) : LeavesPromises s i := by
  intro t key entry j hstep hentry hpromise hj _
  rcases hcurrent with ⟨request, found, hrequest, hfound, hcur⟩
  simp only [Panel.settled, Panel.callback, hrequest, hfound,
    Option.bind_some] at hstep
  split at hstep
  · rename_i hphase
    have hheld := h.promised i request found hrequest hfound hcur
      (fun hfinished => absurd (hphase.symm.trans hfinished) (by decide))
    have hkey : key ≠ request.key := by
      intro hgiven
      rw [hgiven, hfound, Option.some.injEq] at hentry
      rw [← hentry, hheld, Option.some.injEq] at hpromise
      exact hj hpromise.symm
    rw [← Option.some.inj hstep]
    refine ⟨entry, ?_, hpromise⟩
    rw [← hentry]
    exact Function.update_of_ne hkey _ _
  · exact absurd hstep (by simp)

/--
In a run in which no request completes that an invalidation came after, what an
entry holds is from after its last invalidation, and a request that completes
leaves the promises of others alone.
-/
theorem holdsCurrent_of_reaches
    (h : Reaches Panel.step InTime (Panel.init : Panel data error) s) :
    HoldsCurrent s ∧
      forall i, InTime s (Event.settled i) -> LeavesPromises s i :=
  ⟨holdsCurrent_of_tracked (tracked_of_reaches h),
    fun _ => leavesPromises_of_tracked (tracked_of_reaches h)⟩

end Steps

/-!
## Runs

In the first run the entry is refetched after a purge.  In the second the
request from before the purge completes last.
-/

def isCurrent (s : Panel data error) (i : Nat) : Bool :=
  match s.request i with
  | none => false
  | some request =>
      match s.cache request.key with
      | none => false
      | some entry => request.version = entry.version

theorem current_of_isCurrent {s : Panel data error} {i : Nat}
    (h : isCurrent s i = true) : Current s i := by
  rw [isCurrent] at h
  split at h
  · exact absurd h Bool.false_ne_true
  · rename_i request hrequest
    split at h
    · exact absurd h Bool.false_ne_true
    · rename_i entry hentry
      exact ⟨request, entry, hrequest, hentry, of_decide_eq_true h⟩

def inTime (s : Panel data error) : Event data error -> Bool
  | Event.resolved i _ => isCurrent s i
  | Event.rejected i _ => isCurrent s i
  | Event.settled i => isCurrent s i
  | _ => true

theorem inTime_check {s : Panel data error} {e : Event data error}
    (h : inTime s e = true) : InTime s e := by
  cases e with
  | resolved i value => exact current_of_isCurrent h
  | rejected i value => exact current_of_isCurrent h
  | settled i => exact current_of_isCurrent h
  | _ => trivial

def STATS_KEY : JsString :=
  "stats".toList

def refetched : List (Event Nat Nat) :=
  [Event.subscribe STATS_KEY, Event.fetch STATS_KEY, Event.resolved 0 (some 3),
    Event.settled 0, Event.invalidateCache [STATS_KEY], Event.fetch STATS_KEY,
    Event.rejected 1 (some 500), Event.settled 1]

theorem holdsCurrent_of_reaches_refetched :
    HoldsCurrent (lastChecked Panel.step inTime refetched Panel.init) ∧
      forall i, InTime (lastChecked Panel.step inTime refetched Panel.init)
          (Event.settled i) ->
        LeavesPromises (lastChecked Panel.step inTime refetched Panel.init) i :=
  holdsCurrent_of_reaches
    (@reaches_lastChecked _ _ _ _ inTime (fun _ => True) _ _
      (fun _ _ _ _ _ _ => trivial) (fun _ _ _ => inTime_check) trivial
      (by decide))

def overtaken : List (Event Nat Nat) :=
  [Event.subscribe STATS_KEY, Event.fetch STATS_KEY,
    Event.invalidateCache [STATS_KEY], Event.fetch STATS_KEY,
    Event.resolved 1 (some 0), Event.settled 1, Event.resolved 0 (some 3),
    Event.settled 0]

/-- The stats show what was counted before the purge. -/
theorem not_holdsCurrent_overtaken :
    ¬ forall s : Panel Nat Nat, Reaches Panel.step Any Panel.init s ->
      HoldsCurrent s ∧ forall i, LeavesPromises s i := by
  intro h
  have hreach : Reaches Panel.step Any Panel.init
      (last Panel.step overtaken Panel.init) :=
    reaches_last (by decide)
  have hlater : forall j, (last Panel.step overtaken Panel.init).request
      (j + 2) = none :=
    fun _ => rfl
  have hnone : forall j,
      ¬ Outstanding (last Panel.step overtaken Panel.init) STATS_KEY j := by
    intro j hgiven
    rcases hgiven with ⟨request, hrequest, _, hphase⟩
    match j with
    | 0 => exact hphase (by rw [← Option.some.inj hrequest])
    | 1 => exact hphase (by rw [← Option.some.inj hrequest])
    | j + 2 =>
        rw [hlater] at hrequest
        exact absurd hrequest (by simp)
  rcases (h _ hreach).left STATS_KEY
      { data := some { request := 0, value := 3 }, error := none,
        promise := none, version := 1 } 0 rfl hnone (Or.inl ⟨3, rfl⟩) with
    ⟨request, entry, hrequest, hentry, hcurrent⟩
  rw [← Option.some.inj hrequest] at hentry hcurrent
  rw [← Option.some.inj hentry] at hcurrent
  exact absurd hcurrent (by decide)

end Admin
end RestCache
