import RestCache.Recv.Consistent

/-!
# Coalescing

Concurrent requests for a key share one trip to the origin.  No waiter is
stranded, and a waiter only ever gets a response that may be stored, from a
request with its own key, whose read no purge of that key had overtaken when
the waiter joined.
-/

namespace RestCache
namespace Recv

open Foundation
open Keys
open Store

variable {setup : Setup} {s t : State} {r : ReqId} {e : Event}

/-!
## Waiting
-/

/-- The read is still running, or its owner has told how it ended. -/
def Awaitable (s : State) (read : Read) : Prop :=
  s.recv read.owner = Pc.inNext read.generation ∨ s.settled read.owner ≠ []

def WaitersServed (s : State) : Prop :=
  forall r read joinedAt, s.recv r = Pc.joined read joinedAt ->
    Awaitable s read

theorem awaitable_step (h : step setup s e = some t) (hs : Consistent setup s)
    {read : Read} (hlookup : setup.lookup read.owner = true)
    (hread : Awaitable s read) : Awaitable t read := by
  have hmoves := moves_of_step h
  rcases hread with hnext | hsettled
  · cases hmoves with
    | expire key => exact Or.inl hnext
    | purge hmove =>
        apply Or.inl
        rw [(purgeMove_same hmove).left]
        exact hnext
    | recv hmove =>
        rename_i r
        by_cases howner : read.owner = r
        · subst howner
          -- The owner leaves the origin by settling its read.
          right
          cases hmove <;> simp_all [State.finish]
        · apply Or.inl
          rw [recvMove_recv_of_ne hmove howner]
          exact hnext
  · apply Or.inr
    rw [settled_stable hmoves hs.settled hsettled]
    exact hsettled

theorem joined_step (h : step setup s e = some t) {read : Read}
    {joinedAt : Nat} (hjoined : t.recv r = Pc.joined read joinedAt) :
    s.recv r = Pc.joined read joinedAt ∨
      s.inFlight (setup.key r) = some read := by
  cases moves_of_step h with
  | expire key => exact Or.inl hjoined
  | purge hmove =>
      rw [(purgeMove_same hmove).left] at hjoined
      exact Or.inl hjoined
  | recv hmove =>
      rename_i q
      by_cases hq : r = q
      · subst hq
        cases hmove <;>
          simp_all [State.finish, State.providerSet, State.providerDelMany]
      · rw [recvMove_recv_of_ne hmove hq] at hjoined
        exact Or.inl hjoined

theorem waitersServed_step (hs : Consistent setup s) (hw : WaitersServed s)
    (h : step setup s e = some t) : WaitersServed t := by
  intro r read joinedAt hjoined
  rcases joined_step h hjoined with hold | hpending
  · have hread := hs.reads r
    rw [hold] at hread
    exact awaitable_step h hs hread.lookup (hw r read joinedAt hold)
  · rcases hs.inFlight _ _ hpending with ⟨hnext, hlookup, _⟩
    exact awaitable_step h hs hlookup (Or.inl hnext)

theorem waitersServed_reachable {ok : State -> Event -> Prop}
    (h : Reachable setup ok s) : WaitersServed s := by
  refine Transition.reaches_invariant_along (J := Consistent setup) ?_
    (fun _ => consistent_reachable) ?_ h
  · intro r read joinedAt hjoined
    simp [State.init] at hjoined
  · intro a e b ha hw _ hnext
    exact waitersServed_step ha hw hnext

/-!
## What coalescing guarantees
-/

@[simp]
theorem xCache_body (value : JsString) (ctx : Response) :
    (setup.xCache value ctx).body = ctx.body := by
  unfold Setup.xCache
  split <;> rfl

@[simp]
theorem xCache_status (value : JsString) (ctx : Response) :
    (setup.xCache value ctx).status = ctx.status := by
  unfold Setup.xCache
  split <;> rfl

@[simp]
theorem isCacheable_xCache (value : JsString) (ctx : Response) :
    isCacheable (setup.xCache value ctx) = isCacheable ctx := by
  unfold Setup.xCache
  split <;> rfl

def LeftCacheable (s : State) (r : ReqId) (ctx : Response) : Prop :=
  s.handled r = some ctx ∧ isCacheable ctx = some Verdict.cacheable

def EndsRead (r : ReqId) (e : Event) : Prop :=
  (exists ctx, e = Event.nextDone r ctx) ∨ e = Event.nextThrows r

def OriginCallOver (pc : Pc) : Prop :=
  (exists g finishedAt ctx, pc = Pc.done (Answer.fetched g finishedAt) ctx) ∨
    pc = Pc.failed

structure Coalesced (setup : Setup) (s : State) : Prop where
  /-- The map holds reads of requests that are inside `next`. -/
  running : forall key read, s.inFlight key = some read ->
    s.recv read.owner = Pc.inNext read.generation ∧
      setup.lookup read.owner = true ∧ setup.key read.owner = key
  /-- Ending a read removes no read of another request. -/
  othersKept : forall r e t, EndsRead r e -> step setup s e = some t ->
    forall key read, s.inFlight key = some read -> read.owner ≠ r ->
      t.inFlight key = some read
  /-- No read is settled twice, and a registered one is when its call is over. -/
  settledOnce : forall r, (s.settled r).length ≤ 1 ∧
    (setup.lookup r = true -> OriginCallOver (s.recv r) ->
      (s.settled r).length = 1)
  /-- A read is resolved with its handler's response if it may be stored. -/
  resolved : forall r shared,
    Settlement.resolved shared ∈ s.settled r ->
    exists ctx, LeftCacheable s r ctx ∧ shared.body = ctx.body ∧
      shared.status = ctx.status
  /-- A waiter waits for a read that is running or settled. -/
  waiting : forall r read joinedAt, s.recv r = Pc.joined read joinedAt ->
    Awaitable s read
  /-- A waiter is served by a current read of its own key. -/
  served : forall r read joinedAt answer,
    s.recv r = Pc.done (Answer.shared read joinedAt) answer ->
    setup.lookup read.owner = true ∧ setup.key read.owner = setup.key r ∧
      (exists ctx, LeftCacheable s read.owner ctx ∧ answer.body = ctx.body ∧
        answer.status = ctx.status) ∧
      ¬ Purged (s.journal.recorded.take joinedAt) read.generation
        (setup.key r)

theorem endsRead_inFlight {key : JsString} {read : Read}
    (hends : EndsRead r e) (h : step setup s e = some t)
    (hread : s.inFlight key = some read) (hother : read.owner ≠ r) :
    t.inFlight key = some read := by
  have hforget : forall g ctx,
      (s.afterRead setup r g ctx).inFlight key = some read := by
    intro g ctx
    refine (State.afterRead_inFlight s setup r).mpr ⟨hread, ?_⟩
    intro hgiven
    rcases hgiven with ⟨_, _, rfl⟩
    exact hother rfl
  have hthrow : forall g, (s.forget setup r g).inFlight key = some read := by
    intro g
    refine (State.forget_inFlight s setup r).mpr ⟨hread, ?_⟩
    intro hgiven
    rcases hgiven with ⟨_, _, rfl⟩
    exact hother rfl
  rcases hends with ⟨ctx, rfl⟩ | rfl
  · cases moves_of_step h with
    | recv hmove => cases hmove <;> simp [State.finish, hforget]
    | purge hmove => cases hmove
  · cases moves_of_step h with
    | recv hmove => cases hmove <;> simp [hthrow]
    | purge hmove => cases hmove

theorem resolved_published (hs : Consistent setup s) {shared : SharedResponse}
    (h : Settlement.resolved shared ∈ s.settled r) :
    exists ctx, LeftCacheable s r ctx ∧ shared.body = ctx.body ∧
      shared.status = ctx.status := by
  rcases settledAt_shape (hs.settled r) with hnone | hno | hyes
  · simp [hnone] at h
  · simp [hno] at h
  · rcases hyes with ⟨ctx, hhandled, hverdict, hsettled⟩
    rw [isCacheable_xCache] at hverdict
    rw [hsettled, List.mem_singleton] at h
    injection h with h
    refine ⟨ctx, ⟨hhandled, hverdict⟩, ?_, ?_⟩
    · rw [h]
      exact xCache_body _ _
    · rw [h]
      exact xCache_status _ _

theorem settled_length (hs : Consistent setup s) (r : ReqId) :
    (s.settled r).length ≤ 1 := by
  rcases settledAt_shape (hs.settled r) with hnone | hno | ⟨_, _, _, hyes⟩
  · simp [hnone]
  · simp [hno]
  · simp [hyes]

theorem settled_over (hs : Consistent setup s) (hlookup : setup.lookup r = true)
    (hover : OriginCallOver (s.recv r)) : (s.settled r).length = 1 := by
  have hself := hs.settled r
  rcases hover with ⟨g, finishedAt, ctx, hpc⟩ | hpc
  · rw [hpc] at hself
    rcases hself with ⟨hbypassed, _⟩ | ⟨_, hno | ⟨_, _, _, hyes⟩⟩
    · rw [hlookup] at hbypassed
      exact absurd hbypassed (by decide)
    · simp [hno]
    · simp [hyes]
  · rw [hpc] at hself
    rcases hself with ⟨hbypassed, _⟩ | ⟨_, hno⟩
    · rw [hlookup] at hbypassed
      exact absurd hbypassed (by decide)
    · simp [hno]

theorem served_by (hs : Consistent setup s) {read : Read} {joinedAt : Nat}
    {answer : Response}
    (h : s.recv r = Pc.done (Answer.shared read joinedAt) answer) :
    setup.lookup read.owner = true ∧ setup.key read.owner = setup.key r ∧
      (exists ctx, LeftCacheable s read.owner ctx ∧ answer.body = ctx.body ∧
        answer.status = ctx.status) ∧
      ¬ Purged (s.journal.recorded.take joinedAt) read.generation
        (setup.key r) := by
  have hread := hs.reads r
  rw [h] at hread
  rcases hread with ⟨hjoin, shared, hsettled, hanswer⟩
  have hmem : Settlement.resolved shared ∈ s.settled read.owner := by
    rw [hsettled]
    exact List.mem_singleton_self _
  rcases resolved_published hs hmem with ⟨ctx, hctx, hbody, hstatus⟩
  refine ⟨hjoin.lookup, hjoin.key, ⟨ctx, hctx, ?_, ?_⟩, hjoin.current⟩
  · rw [hanswer, ← hbody]
    exact replay_body _ _ _ _
  · rw [hanswer, ← hstatus]
    exact replay_status _ _ _ _

/--
In every run, in any interleaving, coalescing is safe and strands no waiter.
-/
theorem coalesced_of_reachable {setup : Setup} {s : State}
    (h : Reachable setup Transition.Any s) : Coalesced setup s := by
  have hs := consistent_reachable h
  constructor
  · exact hs.inFlight
  · intro r e t hends hstep key read hread hother
    exact endsRead_inFlight hends hstep hread hother
  · exact fun r => ⟨settled_length hs r, settled_over hs⟩
  · exact fun r shared => resolved_published hs
  · exact waitersServed_reachable h
  · exact fun r read joinedAt answer => served_by hs

def joinedRun : List Event :=
  missing 0 ++ missing 1 ++
    [Event.nextDone 0 (Response.ok "a".toList), Event.sharedDone 1]

theorem coalesced_of_reachable_joinedRun :
    (exists answer,
      (Transition.last (step Setup.plain) joinedRun State.init).recv 1 =
        Pc.done (Answer.shared (Read.mk 0 0) 0) answer) ∧
      Coalesced Setup.plain
        (Transition.last (step Setup.plain) joinedRun State.init) := by
  constructor
  · refine ⟨State.sharedResponse Setup.plain 1
      (SharedResponse.mk (Body.text "a".toList) 200 none), ?_⟩
    decide +kernel
  · exact coalesced_of_reachable
      (Transition.reaches_last (by decide +kernel))

end Recv
end RestCache
