import RestCache.Recv.Coalescing

/-!
# What a response that raced a purge advertises

The headers are set before the store is written to.  A purge recorded before
that is seen and keeps them off; one recorded while the writes or the clean-up
are under way comes too late for the response that already carries them.
-/

namespace RestCache
namespace Recv

open Foundation
open Keys
open Store

variable {setup : Setup} {s t : State} {r : ReqId} {p : PurgeId} {e : Event}

/-- The headers are set and the call has not returned yet. -/
def Writing (pc : Pc) : Prop :=
  (exists g ctx etagPending bodyPending,
    pc = Pc.storing g ctx etagPending bodyPending) ∨
  (exists g ctx deleted, pc = Pc.cleaning g ctx deleted)

instance : DecidablePred Writing := fun pc =>
  match pc with
  | Pc.storing g ctx a b => isTrue (Or.inl ⟨g, ctx, a, b, rfl⟩)
  | Pc.cleaning g ctx d => isTrue (Or.inr ⟨g, ctx, d, rfl⟩)
  | Pc.idle => isFalse (by simp [Writing])
  | Pc.hitpass => isFalse (by simp [Writing])
  | Pc.readingEtag _ => isFalse (by simp [Writing])
  | Pc.readingEntry _ _ => isFalse (by simp [Writing])
  | Pc.joined _ _ => isFalse (by simp [Writing])
  | Pc.inNext _ => isFalse (by simp [Writing])
  | Pc.done _ _ => isFalse (by simp [Writing])
  | Pc.failed => isFalse (by simp [Writing])

/-- No purge is recorded while a request for a key it matches is writing. -/
def NotWhileWriting (setup : Setup) (s : State) (e : Event) : Prop :=
  forall p, e = Event.startPurge p ->
    forall r, covers (setup.key r) (setup.purge p) = true ->
      ¬ Writing (s.recv r)

/-- Neither a Cache-Control nor an ETag. -/
def Unadvertised (ctx : Response) : Prop :=
  ctx.cacheControl = [] ∧ ctx.etag = none

/--
A request that went to the origin, whose handler set neither header, and whose
key was purged between its reading of the generation and its return, has left
without them.
-/
def RacedUnadvertised (setup : Setup) (s : State) : Prop :=
  forall r g finishedAt ctx handled,
    s.recv r = Pc.done (Answer.fetched g finishedAt) ctx ->
    s.handled r = some handled -> Unadvertised handled ->
    Purged (s.journal.recorded.take finishedAt) g (setup.key r) ->
    Unadvertised ctx

def CurrentAt (setup : Setup) (recorded : List RegExps) (r : ReqId)
    (handled : Option Response) (pc : Pc) : Prop :=
  match pc with
  | Pc.storing g _ _ _ => ¬ Purged recorded g (setup.key r)
  | Pc.cleaning g _ _ => ¬ Purged recorded g (setup.key r)
  | Pc.done (Answer.fetched g finishedAt) ctx =>
      forall left, handled = some left -> Unadvertised left ->
        Purged (recorded.take finishedAt) g (setup.key r) -> Unadvertised ctx
  | _ => True

def Current (setup : Setup) (s : State) : Prop :=
  forall r,
    CurrentAt setup s.journal.recorded r (s.handled r) (s.recv r)

theorem unadvertised_xCache {value : JsString} {ctx : Response}
    (h : Unadvertised ctx) : Unadvertised (setup.xCache value ctx) := by
  unfold Setup.xCache
  split
  · exact h
  · exact h

theorem currentAt_finish {g : Nat} {ctx : Response}
    (h : forall left, s.handled r = some left -> Unadvertised left ->
      Purged s.journal.recorded g (setup.key r) -> Unadvertised ctx) :
    CurrentAt setup (s.finish r g ctx).journal.recorded r
      ((s.finish r g ctx).handled r) ((s.finish r g ctx).recv r) := by
  have hpc : (s.finish r g ctx).recv r =
      Pc.done (Answer.fetched g s.generation) ctx :=
    State.setRecv_recv_self s r _
  rw [hpc]
  intro left hleft hnone hpurged
  simp only [State.finish, State.setRecv_handled,
    State.setRecv_journal] at hleft hpurged
  rw [generation_eq, List.take_length] at hpurged
  exact h left hleft hnone hpurged

theorem currentAt_recvMove (h : RecvMove setup s r e t)
    (hs : Consistent setup s) (hcurrent : Current setup s) :
    CurrentAt setup t.journal.recorded r (t.handled r) (t.recv r) := by
  have hself := hcurrent r
  have hread := hs.reads r
  cases h with
  | bypassed hpc _ =>
      apply currentAt_finish
      intro left hleft hnone _
      simp only [State.afterRead_handled_self, Option.some.injEq] at hleft
      rw [hleft]
      exact unadvertised_xCache hnone
  | refused hpc _ _ =>
      apply currentAt_finish
      intro left hleft hnone _
      simp only [State.settle_handled, State.afterRead_handled_self,
        Option.some.injEq] at hleft
      rw [hleft]
      exact unadvertised_xCache hnone
  | raced hpc _ _ _ =>
      apply currentAt_finish
      intro left hleft hnone _
      simp only [State.settle_handled, State.afterRead_handled_self,
        Option.some.injEq] at hleft
      rw [hleft]
      exact unadvertised_xCache hnone
  | store hpc _ _ hpurged =>
      rw [hpc] at hread
      simp only [State.setRecv_recv_self, State.setRecv_journal,
        State.settle_journal, State.afterRead_journal]
      exact not_purged_of_purgedSince hread hpurged
  | setEtag hpc =>
      rw [hpc] at hself
      simp only [State.setRecv_recv_self]
      exact hself
  | setEntry hpc =>
      rw [hpc] at hself
      simp only [State.setRecv_recv_self]
      exact hself
  | overtaken hpc _ =>
      rw [hpc] at hself
      simp only [State.setRecv_recv_self]
      exact hself
  | kept hpc _ =>
      rw [hpc] at hself
      apply currentAt_finish
      intro left _ _ hpurged
      exact absurd hpurged hself
  | delPair hpc =>
      rw [hpc] at hself
      simp only [State.setRecv_recv_self]
      exact hself
  | cleaned hpc =>
      rw [hpc] at hself
      apply currentAt_finish
      intro left _ _ hpurged
      exact absurd hpurged hself
  | _ => simp [CurrentAt]

theorem currentAt_append {recorded : List RegExps} {handled : Option Response}
    {pc : Pc} {x : RegExps} {settled : ReqId -> List Settlement}
    (hread : ReadAt setup recorded settled r pc)
    (hclear : covers (setup.key r) x = true -> ¬ Writing pc)
    (h : CurrentAt setup recorded r handled pc) :
    CurrentAt setup (recorded ++ [x]) r handled pc := by
  unfold CurrentAt at h ⊢
  split
  · intro hpurged
    rcases (purged_append hread).mp hpurged with hold | hcovers
    · exact h hold
    · exact hclear hcovers (Or.inl ⟨_, _, _, _, rfl⟩)
  · intro hpurged
    rcases (purged_append hread).mp hpurged with hold | hcovers
    · exact h hold
    · exact hclear hcovers (Or.inr ⟨_, _, _, rfl⟩)
  · rw [List.take_append_of_le_length hread.right]
    exact h
  · trivial

theorem current_step (hs : Consistent setup s) (hcurrent : Current setup s)
    (hok : NotWhileWriting setup s e) (h : step setup s e = some t) :
    Current setup t := by
  intro q
  cases moves_of_step h with
  | expire key => exact hcurrent q
  | purge hmove =>
      rename_i p
      rcases purgeMove_same hmove with ⟨hrecv, _, _, hhandled⟩
      rw [hrecv, hhandled]
      cases hmove with
      | start _ =>
          rw [recordPurge_recorded]
          exact currentAt_append (hs.reads q) (hok p rfl q) (hcurrent q)
      | _ => exact hcurrent q
  | recv hmove =>
      rename_i r
      by_cases hq : q = r
      · subst hq
        exact currentAt_recvMove hmove hs hcurrent
      · rw [recvMove_journal hmove, recvMove_handled_of_ne hmove hq,
          recvMove_recv_of_ne hmove hq]
        exact hcurrent q

/--
A response that raced a purge is not advertised, as long as no purge arrives
while a request for a key it matches is writing.
-/
theorem racedUnadvertised_of_reachable {setup : Setup} {s : State}
    (h : Reachable setup (NotWhileWriting setup) s) :
    RacedUnadvertised setup s := by
  have hcurrent : Current setup s := by
    refine Transition.reaches_invariant_along (J := Consistent setup) ?_
      (fun _ => consistent_reachable) ?_ h
    · intro r
      trivial
    · intro a e b ha hcurrent hok hnext
      exact current_step ha hcurrent hok hnext
  intro r g finishedAt ctx handled hpc hhandled hnone hpurged
  have hself := hcurrent r
  rw [hpc] at hself
  exact hself handled hhandled hnone hpurged

def notWhileWritingCheck (setup : Setup) (requests : List ReqId) (s : State)
    (e : Event) : Bool :=
  match e with
  | Event.startPurge p =>
      requests.all fun r =>
        !covers (setup.key r) (setup.purge p) || !decide (Writing (s.recv r))
  | _ => true

theorem notWhileWriting_of_check {requests : List ReqId}
    (hs : OnlyBegun requests s)
    (h : notWhileWritingCheck setup requests s e = true) :
    NotWhileWriting setup s e := by
  intro p hgiven r hcovers hwriting
  subst hgiven
  by_cases hr : r ∈ requests
  · have hcheck := List.all_eq_true.mp h r hr
    simp [hcovers, hwriting] at hcheck
  · rw [hs r hr] at hwriting
    simp [Writing] at hwriting

def purgedWhileReading : List Event :=
  missing 0 ++ [Event.startPurge 0, Event.nextDone 0 (Response.ok "a".toList)]

theorem racedUnadvertised_of_reachable_purgedWhileReading :
    let s := Transition.lastChecked (step Setup.plain)
      (notWhileWritingCheck Setup.plain [0]) purgedWhileReading State.init
    s.recv 0 = Pc.done (Answer.fetched 0 1) (Response.ok "a".toList) ∧
      RacedUnadvertised Setup.plain s := by
  constructor
  · decide +kernel
  · apply racedUnadvertised_of_reachable
    exact reachable_lastChecked
      (by simp [BeginsOnly, purgedWhileReading, missing])
      (fun s e hs => notWhileWriting_of_check hs) (by decide +kernel)

def purgedWhileStoring : List Event :=
  missing 0 ++
    [Event.nextDone 0 (Response.ok "a".toList), Event.startPurge 0,
      Event.setEtag 0, Event.setEntry 0, Event.writesDone 0, Event.delPair 0,
      Event.delPairDone 0]

theorem not_racedUnadvertised_purgedWhileStoring :
    ¬ forall s, Reachable Setup.plain Transition.Any s ->
      RacedUnadvertised Setup.plain s := by
  intro h
  have hreach : Reachable Setup.plain Transition.Any
      (Transition.last (step Setup.plain) purgedWhileStoring State.init) :=
    Transition.reaches_last (by decide +kernel)
  have hpurged : Purged [none] 0 (Setup.plain.key 0) :=
    ⟨none, List.mem_singleton_self none, rfl⟩
  have hleft := h _ hreach 0 0 1
    (State.advertised Setup.plain 0 (Response.ok "a".toList))
    (Response.ok "a".toList) (by decide +kernel) (by decide +kernel)
    ⟨rfl, rfl⟩ hpurged
  exact absurd hleft.right (by decide +kernel)

end Recv
end RestCache
