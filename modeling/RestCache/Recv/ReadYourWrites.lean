import RestCache.Recv.Answers
import RestCache.Recv.PurgeRace

/-!
# Reading after a purge

A request that begins after a purge of its key has returned sees nothing that
was read from the origin before the purge: not in the store, not through a
stored ETag and not by joining a read.  The store keeps that promise only while
no overtaken request is still writing or cleaning up when it is read.
-/

namespace RestCache
namespace Recv

open Foundation
open Keys
open Store

variable {setup : Setup} {s t : State} {r : ReqId} {p : PurgeId} {e : Event}
  {k : JsString} {g : Nat}

/--
Where a purge that matches `k` had returned in `s`, a request for `k` that had
not begun then is answered in `t` with nothing read before the purge.
-/
def AnsweredFresh (setup : Setup) (k : JsString) (s t : State) : Prop :=
  forall p g r, s.purges p = PurgePc.returned g ->
    covers k (setup.purge p) = true -> setup.key r = k ->
    s.recv r = Pc.idle ->
    forall read, AnsweredFrom (t.recv r) read -> g ≤ read.generation

/--
When a read of the store for `k` takes effect, no request for `k` that a
returned purge has overtaken is still storing or cleaning up; and the purges
that match `k` match its ETag's key too.
-/
structure ReadsUndisturbed (setup : Setup) (k : JsString) (s : State)
    (e : Event) : Prop where
  purges : MatchesEtagToo setup k s e
  reads : forall r timedOut,
    e = Event.getEtag r timedOut ∨ e = Event.getEntry r timedOut ->
    setup.key r = k ->
    forall o n, setup.key o = k -> Owes (s.recv o) n ->
    forall p g, s.purges p = PurgePc.returned g ->
      covers k (setup.purge p) = true -> g ≤ n

structure PurgeOver (setup : Setup) (k : JsString) (p : PurgeId) (g : Nat)
    (s : State) : Prop where
  returned : s.purges p = PurgePc.returned g
  covers : covers k (setup.purge p) = true

/-!
## What a read of the store finds
-/

theorem cell_fresh (hswept : Swept setup s)
    (hetag : StartedMatchEtag setup k s)
    (hover : PurgeOver setup k p g s)
    (hquiet : forall o n, setup.key o = k -> Owes (s.recv o) n -> g ≤ n)
    {x : JsString} {c : Cell} (hx : x = k ∨ x = k ++ "_etag".toList)
    (hc : s.store.lookup (setup.stored x) = some c)
    (hkey : setup.key c.origin.owner = k) : g ≤ c.origin.generation := by
  by_contra hlt
  have hnumber : (s.purges p).generation? = some g := by
    rw [hover.returned]
    rfl
  have hplace : covers x (setup.purge p) = true := by
    rcases hx with rfl | rfl
    · exact hover.covers
    · exact hetag p g hnumber hover.covers
  have hstale : Overtaken setup s p x c g := by
    refine ⟨hnumber, Nat.lt_of_not_le hlt, ?_, hplace, ?_⟩
    · rw [hkey]
      exact hover.covers
    · rw [hkey, Setup.etagKey, hkey]
      exact hx
  rcases hswept p x c g hstale hc with hdelete | howes
  · rw [hover.returned] at hdelete
    exact hdelete
  · exact hlt (hquiet _ _ hkey howes)

/-!
## The late request
-/

theorem purgeOver_step (hover : PurgeOver setup k p g s)
    (h : step setup s e = some t) : PurgeOver setup k p g t := by
  refine ⟨?_, hover.covers⟩
  have hp := hover.returned
  cases moves_of_step h with
  | expire key => exact hp
  | recv hmove =>
      rw [recvMove_purges hmove]
      exact hp
  | purge hmove =>
      rename_i q
      by_cases hq : p = q
      · subst hq
        cases hmove <;> simp_all
      · rw [purgeMove_purges hmove hq]
        exact hp

theorem pending_fresh (hs : Consistent setup s)
    (hover : PurgeOver setup k p g s) {pending : Read}
    (hpurged : s.purgedSince pending.generation k = false) :
    g ≤ pending.generation := by
  by_contra hlt
  have hnumber : (s.purges p).generation? = some g := by
    rw [hover.returned]
    rfl
  have htrue := purgedSince_of_numbered hs hnumber (Nat.lt_of_not_le hlt)
    hover.covers
  rw [htrue] at hpurged
  exact absurd hpurged (by decide)

theorem fresh_step (hclash : NoEtagClash setup) (hs : Consistent setup s)
    (hswept : Swept setup s) (hhoused : Housed setup s)
    (hstarted : StartedMatchEtag setup k s) (hover : PurgeOver setup k p g s)
    (hok : ReadsUndisturbed setup k s e) (hkey : setup.key r = k)
    (hself : SeenOnly (fun read => g ≤ read.generation) (s.recv r))
    (h : step setup s e = some t) :
    SeenOnly (fun read => g ≤ read.generation) (t.recv r) := by
  refine seenOnly_step ?_ ?_ ?_ hself h
  · intro timedOut c he hc
    have howner := housed_etagKey hhoused hclash hc
    rw [Setup.etagKey, hkey] at hc
    rw [hkey] at howner
    refine cell_fresh hswept hstarted hover ?_ (Or.inr rfl) hc howner
    intro o n ho howes
    exact hok.reads r timedOut (Or.inl he) hkey o n ho howes p g
      hover.returned hover.covers
  · intro timedOut c he hc
    have howner := housed_key hhoused (fun _ => hclash) hc
    rw [hkey] at hc howner
    refine cell_fresh hswept hstarted hover ?_ (Or.inl rfl) hc howner
    intro o n ho howes
    exact hok.reads r timedOut (Or.inr he) hkey o n ho howes p g
      hover.returned hover.covers
  · intro pending _ hpurged
    rw [hkey] at hpurged
    exact pending_fresh hs hover hpurged

/-- A client that writes and then reads sees what it wrote. -/
theorem answeredFresh_of_reaches {setup : Setup} {k : JsString} {s t : State}
    (hclash : NoEtagClash setup)
    (hs : Reachable setup (ReadsUndisturbed setup k) s)
    (h : Transition.Reaches (step setup) (ReadsUndisturbed setup k) s t) :
    AnsweredFresh setup k s t := by
  intro p g r hp hk hkey hidle read hfrom
  have hrun : PurgeOver setup k p g t ∧
      SeenOnly (fun read => g ≤ read.generation) (t.recv r) := by
    refine Transition.reaches_invariant_along
      (I := fun a => PurgeOver setup k p g a ∧
        SeenOnly (fun read => g ≤ read.generation) (a.recv r))
      (J := Reachable setup (ReadsUndisturbed setup k))
      ⟨⟨hp, hk⟩, by rw [hidle]; trivial⟩
      (fun a ha => Transition.reaches_trans hs ha) ?_ h
    intro a e b ha hgiven hok hnext
    rcases hgiven with ⟨hover, hself⟩
    have hstarted : StartedMatchEtag setup k a := by
      apply startedMatchEtag_reachable
      exact Transition.reaches_mono (fun _ _ hok => hok.purges) ha
    exact ⟨purgeOver_step hover hnext,
      fresh_step hclash (consistent_reachable ha) (swept_reachable ha)
        (housed_reachable ha) hstarted hover hok hkey hself hnext⟩
  exact seenOnly_answered hrun.right hfrom

def readsUndisturbedCheck (setup : Setup) (k : JsString)
    (requests : List ReqId) (s : State) (e : Event) : Bool :=
  matchesEtagTooCheck setup k s e &&
    match e with
    | Event.getEtag _ _ => requests.all (fun o => !isOwing (s.recv o))
    | Event.getEntry _ _ => requests.all (fun o => !isOwing (s.recv o))
    | _ => true

theorem not_owes_of_all {requests : List ReqId} {o : ReqId} {n : Nat}
    (hs : OnlyBegun requests s)
    (h : requests.all (fun o => !isOwing (s.recv o)) = true) :
    ¬ Owes (s.recv o) n := by
  intro howes
  have howing := isOwing_of_owes howes
  by_cases ho : o ∈ requests
  · have hnot := List.all_eq_true.mp h o ho
    rw [howing] at hnot
    exact absurd hnot (by decide)
  · rw [hs o ho] at howing
    exact absurd howing (by decide)

theorem readsUndisturbed_of_check {requests : List ReqId}
    (hs : OnlyBegun requests s)
    (h : readsUndisturbedCheck setup k requests s e = true) :
    ReadsUndisturbed setup k s e := by
  rcases Bool.and_eq_true_iff.mp h with ⟨hetag, hreads⟩
  refine ⟨matchesEtagToo_of_check hetag, ?_⟩
  intro r timedOut he _ o n _ howes
  rcases he with rfl | rfl
  · exact absurd howes (not_owes_of_all hs hreads)
  · exact absurd howes (not_owes_of_all hs hreads)

def storedAndPurged : List Event :=
  missing 0 ++
    [Event.nextDone 0 (Response.ok "a".toList), Event.setEtag 0,
      Event.setEntry 0, Event.writesDone 0, Event.startPurge 0,
      Event.listKeys 0, Event.keysListed 0, Event.delKeys 0,
      Event.keysDeleted 0]

def joinedAfterPurge : List Event :=
  missing 1 ++ missing 2 ++
    [Event.nextDone 1 (Response.ok "b".toList), Event.sharedDone 2]

theorem answeredFresh_of_reaches_joinedAfterPurge :
    let setup := Setup.purging "/foo".toList
    let check := readsUndisturbedCheck setup (setup.key 0) [0, 1, 2]
    let s := Transition.lastChecked (step setup) check storedAndPurged
      State.init
    let t := Transition.lastChecked (step setup) check joinedAfterPurge s
    s.purges 0 = PurgePc.returned 1 ∧
      AnsweredFrom (t.recv 2) (Read.mk 1 1) ∧
      AnsweredFresh setup (setup.key 0) s t := by
  intro setup check s t
  have hs : BeginsOnly [0, 1, 2] storedAndPurged := by
    simp [BeginsOnly, storedAndPurged, missing]
  have ht : BeginsOnly [0, 1, 2] joinedAfterPurge := by
    simp [BeginsOnly, joinedAfterPurge, missing]
  have hanswer : AnsweredFrom (t.recv 2) (Read.mk 1 1) :=
    Or.inr (Or.inr ⟨1, State.sharedResponse setup 2
      (SharedResponse.mk (Body.text "b".toList) 200 none), by decide +kernel⟩)
  have hclash : NoEtagClash setup :=
    @noEtagClash_of_oneKey setup (setup.key 0) (fun _ => rfl)
  refine ⟨by decide +kernel, hanswer, ?_⟩
  apply answeredFresh_of_reaches hclash
  · exact reachable_lastChecked hs
      (fun _ _ ha => readsUndisturbed_of_check ha) (by decide +kernel)
  · exact reaches_lastChecked ht
      (onlyBegun_lastChecked hs (onlyBegun_init _))
      (fun _ _ ha => readsUndisturbed_of_check ha) (by decide +kernel)

def purgedBeforeStored : List Event :=
  missing 0 ++
    [Event.nextDone 0 (Response.ok "a".toList), Event.startPurge 0,
      Event.listKeys 0, Event.keysListed 0]

def hitBeforeCleanUp : List Event :=
  [Event.setEtag 0, Event.setEntry 0] ++ missing 1

theorem not_answeredFresh_hitBeforeCleanUp :
    ¬ forall setup k s t, RoutePurges setup ->
      (forall r, setup.key r = k) ->
      Reachable setup Transition.Any s ->
      Transition.Reaches (step setup) Transition.Any s t ->
      AnsweredFresh setup k s t := by
  intro h
  let setup := Setup.purging "/foo".toList
  let s := Transition.last (step setup) purgedBeforeStored State.init
  let t := Transition.last (step setup) hitBeforeCleanUp s
  have hs : Reachable setup Transition.Any s :=
    Transition.reaches_last (by decide +kernel)
  have ht : Transition.Reaches (step setup) Transition.Any s t :=
    Transition.reaches_last (by decide +kernel)
  have hfresh := h setup (setup.key 0) s t
    (routePurges_purging (by decide +kernel)) (fun _ => rfl) hs ht
  have hstale : 1 ≤ 0 := by
    refine hfresh 0 1 1 (by decide +kernel) (by decide +kernel) rfl
      (by decide +kernel) (Read.mk 0 0) (Or.inr (Or.inl ?_))
    exact ⟨State.hitResponse setup 1
      (some (State.etagCell setup 0 0 (Response.ok "a".toList)))
      (State.entryCell setup 0 0 (Response.ok "a".toList)),
      by decide +kernel⟩
  exact absurd hstale (by decide)

end Recv
end RestCache
