import RestCache.Recv.PurgeRace

/-!
# Deleting a role

The cache is reset in a hook that runs before the role's row is deleted.  A
request that comes in between is not overtaken by the reset, but what it reads
can still be from before the deletion.
-/

namespace RestCache
namespace Recv

open Foundation
open Keys
open Store

/-!
## The deletion of a row
-/

structure RoleDeletion (setup : Setup) where
  reset : PurgeId
  isReset : setup.purge reset = none

/--
`readBefore` are the requests whose handlers have read the origin while the row
was there, and `begunBefore` those that had begun when it was deleted.
-/
structure RoleState where
  cache : State
  deleted : Bool
  readBefore : ReqId -> Bool
  begunBefore : ReqId -> Bool

def RoleState.init : RoleState where
  cache := State.init
  deleted := false
  readBefore _ := false
  begunBefore _ := false

inductive RoleEvent where
  | cache (e : Event)
  | readOrigin (r : ReqId)
  | deleteRow

section Steps

variable {setup : Setup} (deletion : RoleDeletion setup)

def RoleState.read (s : RoleState) (r : ReqId) : RoleState :=
  if s.deleted then s
  else { s with readBefore := Function.update s.readBefore r true }

def hasBegun : Pc -> Bool
  | Pc.idle => false
  | _ => true

/-- A handler reads while its request is in `next()`, and the row is deleted
when the hook has returned. -/
def roleStep (s : RoleState) : RoleEvent -> Option RoleState
  | RoleEvent.cache e =>
      (step setup s.cache e).map fun cache => { s with cache }
  | RoleEvent.readOrigin r =>
      match s.cache.recv r with
      | Pc.inNext _ => some (s.read r)
      | _ => none
  | RoleEvent.deleteRow =>
      match s.cache.purges deletion.reset, s.deleted with
      | PurgePc.returned _, false =>
          some { s with
            deleted := true
            begunBefore := fun r => hasBegun (s.cache.recv r) }
      | _, _ => none

/-- The row is deleted, and what had begun before that has finished. -/
structure RoleGone (s : RoleState) : Prop where
  deleted : s.deleted = true
  finished : forall r, s.begunBefore r = true -> Finished (s.cache.recv r)

def NothingFromBefore (s : RoleState) : Prop :=
  forall y c, s.cache.store.lookup y = some c ->
    s.readBefore c.origin.owner = false

/--
A request that looks its key up does not read the origin before the row is
deleted once the reset has been recorded, unless it is older than the reset.
-/
def ReadsOutside (s : RoleState) : RoleEvent -> Prop
  | RoleEvent.readOrigin r =>
      setup.lookup r = true -> s.deleted = false ->
        forall g n, s.cache.recv r = Pc.inNext g ->
          (s.cache.purges deletion.reset).generation? = some n -> g < n
  | _ => True

end Steps

/-!
## Whose read a value is
-/

variable {setup : Setup}

def readGeneration : Pc -> Option Nat
  | Pc.inNext g => some g
  | Pc.storing g _ _ _ => some g
  | Pc.cleaning g _ _ => some g
  | Pc.done (Answer.fetched g _) _ => some g
  | _ => none

def isInNext : Pc -> Bool
  | Pc.inNext _ => true
  | _ => false

/-- The value was stored by its request, which has left `next()`. -/
structure StoredBy (setup : Setup) (s : State) (c : Cell) : Prop where
  lookup : setup.lookup c.origin.owner = true
  generation : readGeneration (s.recv c.origin.owner) = some c.origin.generation
  past : isInNext (s.recv c.origin.owner) = false

def Credited (setup : Setup) (s : State) : Prop :=
  forall y c, s.store.lookup y = some c -> StoredBy setup s c

section Credited

variable {s t : State} {r : ReqId} {e : Event}

theorem readGeneration_recvMove (h : RecvMove setup s r e t) {g : Nat}
    (hg : readGeneration (s.recv r) = some g)
    (hpast : isInNext (s.recv r) = false) :
    readGeneration (t.recv r) = some g ∧ isInNext (t.recv r) = false := by
  cases h <;> simp_all [readGeneration, isInNext, State.finish,
    State.providerSet, State.providerDelMany]

theorem credited_step (hs : Consistent setup s) (hcredited : Credited setup s)
    (h : step setup s e = some t) : Credited setup t := by
  intro y c hc
  have hmoves := moves_of_step h
  rcases moves_store hmoves hc with hold | ⟨r, hwrote⟩
  · have hstored := hcredited y c hold
    cases hmoves with
    | expire key => exact ⟨hstored.lookup, hstored.generation, hstored.past⟩
    | purge hmove =>
        have hrecv := (purgeMove_same hmove).left
        refine ⟨hstored.lookup, ?_, ?_⟩
        · rw [hrecv]
          exact hstored.generation
        · rw [hrecv]
          exact hstored.past
    | recv hmove =>
        rename_i r
        by_cases howner : c.origin.owner = r
        · have hkept := readGeneration_recvMove hmove
            (howner ▸ hstored.generation) (howner ▸ hstored.past)
          rw [← howner] at hkept
          exact ⟨hstored.lookup, hkept.left, hkept.right⟩
        · have hrecv := recvMove_recv_of_ne hmove howner
          refine ⟨hstored.lookup, ?_, ?_⟩
          · rw [hrecv]
            exact hstored.generation
          · rw [hrecv]
            exact hstored.past
  · have hsettled := hs.settled r
    cases hwrote with
    | etag hpc hpc' =>
        rw [hpc] at hsettled
        refine ⟨hsettled.left, ?_, ?_⟩
        · show readGeneration (t.recv r) = _
          rw [hpc']
          rfl
        · show isInNext (t.recv r) = _
          rw [hpc']
          rfl
    | entry hpc hpc' =>
        rw [hpc] at hsettled
        refine ⟨hsettled.left, ?_, ?_⟩
        · show readGeneration (t.recv r) = _
          rw [hpc']
          rfl
        · show isInNext (t.recv r) = _
          rw [hpc']
          rfl

theorem credited_reachable {ok : State -> Event -> Prop}
    (h : Reachable setup ok s) : Credited setup s := by
  refine Transition.reaches_invariant_along (J := Consistent setup) ?_
    (fun _ => consistent_reachable) ?_ h
  · intro y c hc
    simp [State.init] at hc
  · intro a e b ha hcredited _ hnext
    exact credited_step ha hcredited hnext

theorem readGeneration_le (hs : Consistent setup s) {g : Nat}
    (hg : readGeneration (s.recv r) = some g) :
    g ≤ s.journal.recorded.length := by
  have hread := hs.reads r
  unfold readGeneration at hg
  split at hg
  · rename_i hpc
    rw [hpc] at hread
    rw [← Option.some.inj hg]
    exact hread
  · rename_i hpc
    rw [hpc] at hread
    rw [← Option.some.inj hg]
    exact hread
  · rename_i hpc
    rw [hpc] at hread
    rw [← Option.some.inj hg]
    exact hread
  · rename_i hpc
    rw [hpc] at hread
    rw [← Option.some.inj hg]
    exact Nat.le_trans hread.left hread.right
  · exact absurd hg (by simp)

theorem readGeneration_once (h : RecvMove setup s r e t) {g : Nat}
    (hg : readGeneration (s.recv r) = some g) :
    readGeneration (t.recv r) = some g ∨ t.recv r = Pc.failed := by
  cases h <;> simp_all [readGeneration, State.finish, State.providerSet,
    State.providerDelMany]

theorem not_recvMove_of_failed (h : RecvMove setup s r e t)
    (hfailed : s.recv r = Pc.failed) : False := by
  cases h <;> simp_all

end Credited

/-!
## What the reset overtakes
-/

section Runs

variable {deletion : RoleDeletion setup} {s t : RoleState} {e : RoleEvent}

structure RoleInv (deletion : RoleDeletion setup) (s : RoleState) : Prop where
  cache : Reachable setup Transition.Any s.cache
  reading : forall r, s.readBefore r = true ->
    (exists g, readGeneration (s.cache.recv r) = some g) ∨
      s.cache.recv r = Pc.failed
  older : forall r g n, s.readBefore r = true -> setup.lookup r = true ->
    readGeneration (s.cache.recv r) = some g ->
      (s.cache.purges deletion.reset).generation? = some n -> g < n
  begun : s.deleted = true -> forall r, s.readBefore r = true ->
    s.begunBefore r = true
  returned : s.deleted = true ->
    exists n, s.cache.purges deletion.reset = PurgePc.returned n

theorem roleInv_init : RoleInv deletion RoleState.init where
  cache := Transition.reaches_refl _
  reading r hr := absurd hr (by simp [RoleState.init])
  older r _ _ hr := absurd hr (by simp [RoleState.init])
  begun h := absurd h (by simp [RoleState.init])
  returned h := absurd h (by simp [RoleState.init])

theorem reading_cache (hs : RoleInv deletion s) {event : Event} {cache : State}
    (h : step setup s.cache event = some cache) {r : ReqId}
    (hr : s.readBefore r = true) :
    (exists g, readGeneration (cache.recv r) = some g) ∨
      cache.recv r = Pc.failed := by
  have hold := hs.reading r hr
  cases moves_of_step h with
  | expire key => exact hold
  | purge hmove =>
      rw [(purgeMove_same hmove).left]
      exact hold
  | recv hmove =>
      rename_i mover
      by_cases hmover : r = mover
      · subst hmover
        rcases hold with ⟨g, hg⟩ | hfailed
        · exact (readGeneration_once hmove hg).imp (fun h => ⟨g, h⟩) id
        · exact (not_recvMove_of_failed hmove hfailed).elim
      · rw [recvMove_recv_of_ne hmove hmover]
        exact hold

theorem older_cache (hs : RoleInv deletion s) {event : Event} {cache : State}
    (h : step setup s.cache event = some cache) {r : ReqId} {g n : Nat}
    (hr : s.readBefore r = true) (hlookup : setup.lookup r = true)
    (hg : readGeneration (cache.recv r) = some g)
    (hn : (cache.purges deletion.reset).generation? = some n) : g < n := by
  cases moves_of_step h with
  | expire key => exact hs.older r g n hr hlookup hg hn
  | purge hmove =>
      rename_i p
      rw [(purgeMove_same hmove).left] at hg
      by_cases hp : deletion.reset = p
      · subst hp
        rcases purgeMove_generation hmove hn with ⟨hold, _⟩ | ⟨hnew, _⟩
        · exact hs.older r g n hr hlookup hg hold
        · have hle := readGeneration_le (consistent_reachable hs.cache) hg
          omega
      · rw [purgeMove_purges hmove hp] at hn
        exact hs.older r g n hr hlookup hg hn
  | recv hmove =>
      rename_i mover
      rw [recvMove_purges hmove] at hn
      by_cases hmover : r = mover
      · subst hmover
        rcases hs.reading r hr with ⟨g', hg'⟩ | hfailed
        · rcases readGeneration_once hmove hg' with hkept | hfailed
          · rw [hkept, Option.some.injEq] at hg
            subst hg
            exact hs.older r g' n hr hlookup hg' hn
          · rw [hfailed] at hg
            exact absurd hg (by simp [readGeneration])
        · exact (not_recvMove_of_failed hmove hfailed).elim
      · rw [recvMove_recv_of_ne hmove hmover] at hg
        exact hs.older r g n hr hlookup hg hn

theorem returned_cache (hs : RoleInv deletion s) {event : Event} {cache : State}
    (h : step setup s.cache event = some cache) (hdeleted : s.deleted = true) :
    exists n, cache.purges deletion.reset = PurgePc.returned n := by
  rcases hs.returned hdeleted with ⟨n, hn⟩
  refine ⟨n, ?_⟩
  cases moves_of_step h with
  | expire key => exact hn
  | recv hmove =>
      rw [recvMove_purges hmove]
      exact hn
  | purge hmove =>
      rename_i p
      by_cases hp : deletion.reset = p
      · subst hp
        cases hmove <;> simp_all
      · rw [purgeMove_purges hmove hp]
        exact hn

theorem roleInv_cache (hs : RoleInv deletion s) {event : Event}
    (h : roleStep deletion s (RoleEvent.cache event) = some t) :
    RoleInv deletion t := by
  rcases Option.map_eq_some_iff.mp h with ⟨cache, hstep, rfl⟩
  constructor
  · exact Transition.reaches_tail hs.cache trivial hstep
  · exact fun r hr => reading_cache hs hstep hr
  · exact fun r g n hr hlookup hg hn => older_cache hs hstep hr hlookup hg hn
  · exact hs.begun
  · exact fun hdeleted => returned_cache hs hstep hdeleted

theorem roleInv_readOrigin (hs : RoleInv deletion s) {r : ReqId}
    (hok : ReadsOutside deletion s (RoleEvent.readOrigin r))
    (h : roleStep deletion s (RoleEvent.readOrigin r) = some t) :
    RoleInv deletion t := by
  cases hpc : s.cache.recv r with
  | inNext g =>
      simp only [roleStep, hpc, RoleState.read, Option.some.injEq] at h
      cases hdeleted : s.deleted with
      | true =>
          rw [hdeleted, if_pos rfl] at h
          rw [← h]
          exact hs
      | false =>
          rw [hdeleted, if_neg (by simp)] at h
          have hcases : forall q, t.readBefore q = true ->
              q = r ∨ s.readBefore q = true := by
            intro q hq
            rw [← h] at hq
            by_cases hqr : q = r
            · exact Or.inl hqr
            · apply Or.inr
              rw [← hq]
              exact (Function.update_of_ne hqr true s.readBefore).symm
          have hcache : t.cache = s.cache := by
            rw [← h]
          have hkept : t.deleted = false := by
            rw [← h]
          constructor
          · rw [hcache]
            exact hs.cache
          · intro q hq
            rw [hcache]
            rcases hcases q hq with rfl | hq
            · rw [hpc]
              exact Or.inl ⟨g, rfl⟩
            · exact hs.reading q hq
          · intro q g' n hq hlookup hg hn
            rw [hcache] at hg hn
            rcases hcases q hq with rfl | hq
            · rw [hpc] at hg
              rw [← Option.some.inj hg]
              exact hok hlookup hdeleted g n hpc hn
            · exact hs.older q g' n hq hlookup hg hn
          · intro hgone
            rw [hkept] at hgone
            exact absurd hgone (by simp)
          · intro hgone
            rw [hkept] at hgone
            exact absurd hgone (by simp)
  | _ => simp [roleStep, hpc] at h

theorem roleInv_deleteRow (hs : RoleInv deletion s)
    (h : roleStep deletion s RoleEvent.deleteRow = some t) :
    RoleInv deletion t := by
  simp only [roleStep] at h
  split at h
  · rename_i n hreturned _
    rw [← Option.some.inj h]
    refine ⟨hs.cache, hs.reading, hs.older, ?_, fun _ => ⟨n, hreturned⟩⟩
    intro _ r hr
    show hasBegun (s.cache.recv r) = true
    cases hpc : s.cache.recv r with
    | idle =>
        have hread := hs.reading r hr
        rw [hpc] at hread
        simp [readGeneration] at hread
    | _ => rfl
  · exact absurd h (by simp)

theorem roleInv_step (hs : RoleInv deletion s)
    (hok : ReadsOutside deletion s e) (h : roleStep deletion s e = some t) :
    RoleInv deletion t := by
  cases e with
  | cache event => exact roleInv_cache hs h
  | readOrigin r => exact roleInv_readOrigin hs hok h
  | deleteRow => exact roleInv_deleteRow hs h

theorem roleInv_reaches
    (h : Transition.Reaches (roleStep deletion) (ReadsOutside deletion)
      RoleState.init s) :
    RoleInv deletion s :=
  Transition.reaches_invariant roleInv_init
    (fun _ _ _ ha hok hstep => roleInv_step ha hok hstep) h

/-- A value that was read before the deletion is overtaken by the reset. -/
theorem overtaken_of_readBefore (hs : RoleInv deletion s)
    (hdeleted : s.deleted = true) {y : JsString} {c : Cell}
    (hc : s.cache.store.lookup y = some c)
    (hread : s.readBefore c.origin.owner = true) :
    exists x n, y = setup.stored x ∧
      s.cache.purges deletion.reset = PurgePc.returned n ∧
        Overtaken setup s.cache deletion.reset x c n := by
  rcases hs.returned hdeleted with ⟨n, hn⟩
  have hnumber : (s.cache.purges deletion.reset).generation? = some n := by
    rw [hn]
    rfl
  have hall : forall key, covers key (setup.purge deletion.reset) = true := by
    intro key
    rw [deletion.isReset]
    rfl
  have hstored := credited_reachable hs.cache y c hc
  have hbefore := hs.older _ _ n hread hstored.lookup hstored.generation hnumber
  rcases housed_reachable hs.cache y c hc with hkey | ⟨_, hetag⟩
  · exact ⟨_, n, hkey, hn, hnumber, hbefore, hall _, hall _, Or.inl rfl⟩
  · exact ⟨_, n, hetag, hn, hnumber, hbefore, hall _, hall _, Or.inr rfl⟩

end Runs

/--
Where no request reads the row between the reset and the deletion, nothing is
left of what was read before it once the requests of that time have finished.
-/
theorem nothingFromBefore_of_reaches {setup : Setup}
    {deletion : RoleDeletion setup} {s : RoleState}
    (h : Transition.Reaches (roleStep deletion) (ReadsOutside deletion)
      RoleState.init s)
    (hgone : RoleGone s) : NothingFromBefore s := by
  have hs := roleInv_reaches h
  intro y c hc
  cases hread : s.readBefore c.origin.owner with
  | false => rfl
  | true =>
      rcases overtaken_of_readBefore hs hgone.deleted hc hread with
        ⟨x, n, rfl, hreturned, hover⟩
      rcases swept_reachable hs.cache _ x c n hover hc with hdelete | howes
      · rw [hreturned] at hdelete
        exact absurd hdelete id
      · have hfinished := hgone.finished _ (hs.begun hgone.deleted _ hread)
        exact absurd howes (not_owes_of_finished hfinished)

/-!
## An example
-/

def plainDeletion : RoleDeletion Setup.plain where
  reset := 0
  isReset := rfl

def resetAll : List Event :=
  [Event.startPurge 0, Event.clear 0, Event.cleared 0]

def readBeforeReset : List RoleEvent :=
  (missing 0).map RoleEvent.cache ++
    RoleEvent.readOrigin 0 :: resetAll.map RoleEvent.cache ++
      [RoleEvent.deleteRow,
        RoleEvent.cache (Event.nextDone 0 (Response.ok "a".toList))]

def readBehindReset : List RoleEvent :=
  (resetAll ++ missing 0).map RoleEvent.cache ++
    [RoleEvent.readOrigin 0, RoleEvent.deleteRow] ++
      [Event.nextDone 0 (Response.ok "a".toList), Event.setEtag 0,
        Event.setEntry 0, Event.writesDone 0].map RoleEvent.cache

def readsOutsideCheck (s : RoleState) : RoleEvent -> Bool
  | RoleEvent.readOrigin r =>
      match s.cache.recv r, (s.cache.purges 0).generation? with
      | Pc.inNext g, some n => g < n
      | _, _ => true
  | _ => true

theorem readsOutside_of_check {s : RoleState} {e : RoleEvent}
    (h : readsOutsideCheck s e = true) : ReadsOutside plainDeletion s e := by
  cases e with
  | readOrigin r =>
      intro _ _ g n hpc hn
      have hn : (s.cache.purges 0).generation? = some n := hn
      simp only [readsOutsideCheck, hpc, hn] at h
      exact of_decide_eq_true h
  | cache event => trivial
  | deleteRow => trivial

def RoleOnlyBegun (requests : List ReqId) (s : RoleState) : Prop :=
  OnlyBegun requests s.cache ∧
    forall r, r ∉ requests -> s.begunBefore r = false

def RoleBeginsOnly (requests : List ReqId) (events : List RoleEvent) : Prop :=
  forall r, RoleEvent.cache (Event.begin r) ∈ events -> r ∈ requests

theorem roleOnlyBegun_step {deletion : RoleDeletion setup}
    {requests : List ReqId} {events : List RoleEvent} {s t : RoleState}
    {e : RoleEvent} (hevents : RoleBeginsOnly requests events)
    (hs : RoleOnlyBegun requests s) (he : e ∈ events)
    (h : roleStep deletion s e = some t) : RoleOnlyBegun requests t := by
  cases e with
  | cache event =>
      rcases Option.map_eq_some_iff.mp h with ⟨cache, hstep, rfl⟩
      refine ⟨?_, hs.right⟩
      have honly : BeginsOnly requests [event] := by
        intro r hr
        rw [List.mem_singleton] at hr
        rw [← hr] at he
        exact hevents r he
      exact onlyBegun_step honly hs.left List.mem_cons_self hstep
  | readOrigin r =>
      simp only [roleStep] at h
      split at h
      · rw [← Option.some.inj h]
        unfold RoleState.read
        split
        · exact hs
        · exact hs
      · exact absurd h (by simp)
  | deleteRow =>
      simp only [roleStep] at h
      split at h
      · rw [← Option.some.inj h]
        refine ⟨hs.left, ?_⟩
        intro r hr
        show hasBegun (s.cache.recv r) = false
        rw [hs.left r hr]
        rfl
      · exact absurd h (by simp)

def isFinished : Pc -> Bool
  | Pc.done _ _ => true
  | Pc.failed => true
  | _ => false

theorem finished_of_isFinished {pc : Pc} (h : isFinished pc = true) :
    Finished pc := by
  cases pc with
  | done answer ctx => exact Or.inl ⟨answer, ctx, rfl⟩
  | failed => exact Or.inr rfl
  | _ => exact absurd h (by simp [isFinished])

theorem roleGone_lastChecked {check : RoleState -> RoleEvent -> Bool}
    {events : List RoleEvent} (hevents : RoleBeginsOnly [0] events)
    (hdeleted : (Transition.lastChecked (roleStep plainDeletion) check events
      RoleState.init).deleted = true)
    (hfinished : isFinished ((Transition.lastChecked (roleStep plainDeletion)
      check events RoleState.init).cache.recv 0) = true) :
    RoleGone (Transition.lastChecked (roleStep plainDeletion) check events
      RoleState.init) := by
  have honly : RoleOnlyBegun [0] (Transition.lastChecked
      (roleStep plainDeletion) check events RoleState.init) :=
    Transition.lastChecked_known
      (fun _ _ _ ha he hstep => roleOnlyBegun_step hevents ha he hstep)
      ⟨onlyBegun_init [0], fun _ _ => rfl⟩
  refine ⟨hdeleted, ?_⟩
  intro r hr
  by_cases hmem : r ∈ [0]
  · rw [List.mem_singleton.mp hmem]
    exact finished_of_isFinished hfinished
  · rw [honly.right r hmem] at hr
    exact absurd hr (by simp)

theorem nothingFromBefore_readBeforeReset :
    NothingFromBefore (Transition.lastChecked (roleStep plainDeletion)
      readsOutsideCheck readBeforeReset RoleState.init) := by
  apply nothingFromBefore_of_reaches
  · apply @Transition.reaches_lastChecked _ _ _ _ _ (fun _ => True)
    · exact fun _ _ _ _ _ _ => trivial
    · exact fun _ _ _ => readsOutside_of_check
    · trivial
    · decide +kernel
  · apply roleGone_lastChecked
    · simp [RoleBeginsOnly, readBeforeReset, missing, resetAll]
    · decide +kernel
    · decide +kernel

theorem not_nothingFromBefore_readBehindReset :
    ¬ forall setup (deletion : RoleDeletion setup) s,
      Transition.Reaches (roleStep deletion) Transition.Any RoleState.init s ->
        RoleGone s -> NothingFromBefore s := by
  intro h
  have hreach : Transition.Reaches (roleStep plainDeletion) Transition.Any
      RoleState.init (Transition.lastChecked (roleStep plainDeletion)
        (fun _ _ => true) readBehindReset RoleState.init) := by
    apply @Transition.reaches_lastChecked _ _ _ _ _ (fun _ => True)
    · exact fun _ _ _ _ _ _ => trivial
    · exact fun _ _ _ _ => trivial
    · trivial
    · decide +kernel
  have hgone : RoleGone (Transition.lastChecked (roleStep plainDeletion)
      (fun _ _ => true) readBehindReset RoleState.init) := by
    apply roleGone_lastChecked
    · simp [RoleBeginsOnly, readBehindReset, missing, resetAll]
    · decide +kernel
    · decide +kernel
  have hnothing := h _ plainDeletion _ hreach hgone (Setup.plain.key 0)
    (State.entryCell Setup.plain 0 1 (Response.ok "a".toList))
    (by decide +kernel)
  exact absurd hnothing (by decide +kernel)

end Recv
end RestCache
