import RestCache.Recv.StoreMoves

/-!
# What a request has seen

A request that is answered without a trip of its own has seen values in the
store or joined a read, and each of these goes back to one read of the origin.
Whatever holds of all of these reads holds of the answer.
-/

namespace RestCache
namespace Recv

open Foundation
open Keys
open Store

variable {setup : Setup} {s t : State} {r : ReqId} {e : Event}

/-- The request was answered with what this read of the origin brought. -/
def AnsweredFrom (pc : Pc) (read : Read) : Prop :=
  (exists ctx, pc = Pc.done (Answer.notModified read) ctx) ∨
  (exists ctx, pc = Pc.done (Answer.hit read) ctx) ∨
  (exists joinedAt ctx, pc = Pc.done (Answer.shared read joinedAt) ctx)

/-- Everything the request has seen so far goes back to a read in `P`. -/
def SeenOnly (P : Read -> Prop) (pc : Pc) : Prop :=
  match pc with
  | Pc.readingEtag (some (some c)) => P c.origin
  | Pc.readingEntry etag reply =>
      (forall c, etag = some c -> P c.origin) ∧
        (forall c, reply = some (some c) -> P c.origin)
  | Pc.joined read _ => P read
  | Pc.done (Answer.notModified read) _ => P read
  | Pc.done (Answer.hit read) _ => P read
  | Pc.done (Answer.shared read _) _ => P read
  | _ => True

variable {P : Read -> Prop}

theorem seenOnly_answered {pc : Pc} {read : Read} (h : SeenOnly P pc)
    (hfrom : AnsweredFrom pc read) : P read := by
  rcases hfrom with ⟨ctx, rfl⟩ | ⟨ctx, rfl⟩ | ⟨joinedAt, ctx, rfl⟩
  · exact h
  · exact h
  · exact h

theorem providerGet_some {key : JsString} {timedOut : Bool} {c : Cell}
    (h : s.providerGet setup key timedOut = some c) :
    s.store.lookup (setup.stored key) = some c := by
  unfold State.providerGet at h
  split at h
  · exact absurd h (by simp)
  · exact h

theorem present_some {reply : Option Cell} {c : Cell}
    (h : present reply = some c) : reply = some c :=
  (Option.filter_eq_some_iff.mp h).left

/--
A step keeps that, if it does of the value a read of the store returns and of a
read the request may join.
-/
theorem seenOnly_step
    (hetag : forall timedOut c, e = Event.getEtag r timedOut ->
      s.store.lookup (setup.stored (setup.etagKey r)) = some c -> P c.origin)
    (hentry : forall timedOut c, e = Event.getEntry r timedOut ->
      s.store.lookup (setup.stored (setup.key r)) = some c -> P c.origin)
    (hjoin : forall pending, s.inFlight (setup.key r) = some pending ->
      s.purgedSince pending.generation (setup.key r) = false -> P pending)
    (hself : SeenOnly P (s.recv r)) (h : step setup s e = some t) :
    SeenOnly P (t.recv r) := by
  cases moves_of_step h with
  | expire key => exact hself
  | purge hmove =>
      rw [(purgeMove_same hmove).left]
      exact hself
  | recv hmove =>
      rename_i q
      by_cases hq : r = q
      · subst hq
        cases hmove with
        | getEtag hpc =>
            rename_i timedOut
            rw [State.setRecv_recv_self]
            cases hreply : s.providerGet setup (setup.etagKey r) timedOut with
            | none => trivial
            | some c => exact hetag timedOut c rfl (providerGet_some hreply)
        | notModified hpc hpresent _ _ =>
            rw [hpc, present_some hpresent] at hself
            rw [State.setRecv_recv_self]
            exact hself
        | keepEtag hpc hpresent _ =>
            rw [hpc, present_some hpresent] at hself
            rw [State.setRecv_recv_self]
            constructor
            · intro c hc
              injection hc with hc
              rw [← hc]
              exact hself
            · intro c hc
              exact absurd hc (by simp)
        | getEntry hpc =>
            rename_i etag timedOut
            rw [hpc] at hself
            rw [State.setRecv_recv_self]
            refine ⟨hself.left, ?_⟩
            intro c hc
            injection hc with hc
            exact hentry timedOut c rfl (providerGet_some hc)
        | hit hpc hpresent =>
            rw [hpc, present_some hpresent] at hself
            rw [State.setRecv_recv_self]
            exact hself.right _ rfl
        | join hpc _ hpending hpurged =>
            rw [State.setRecv_recv_self]
            exact hjoin _ hpending hpurged
        | shared hpc _ =>
            rw [hpc] at hself
            rw [State.setRecv_recv_self]
            exact hself
        | _ => simp [SeenOnly, State.finish]
      · rw [recvMove_recv_of_ne hmove hq]
        exact hself

end Recv
end RestCache
