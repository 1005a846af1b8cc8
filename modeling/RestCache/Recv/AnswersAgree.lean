import RestCache.Recv.Coalescing
import RestCache.Recv.StoreMoves

/-!
# The ways of answering agree

A response reaches a caller from the handler, from the request it waited for, or
from the text in the store.  All three have the body and the type that may be
replayed; the status is handed over to who waits, and an entry does not keep it.
-/

namespace RestCache
namespace Recv

open Foundation
open Keys
open Store

/-!
## Agreement
-/

/-- The response is the handler's, but for the headers that recv sets. -/
structure SameAnswer (handled ctx : Response) : Prop where
  status : ctx.status = handled.status
  body : ctx.body = handled.body
  contentType : ctx.contentType = handled.contentType

/-- A type that may be replayed with the string it came with is kept. -/
def KeepsType (lower : CaseMapping) (handled ctx : Response) : Prop :=
  forall text, handled.body = Body.text text ->
    isReplayable lower handled.contentType text = true ->
      ctx.contentType = handled.contentType

structure AnswersAgree (setup : Setup) (s : State) : Prop where
  fetched : forall r g finishedAt ctx,
    s.recv r = Pc.done (Answer.fetched g finishedAt) ctx ->
      exists handled, s.handled r = some handled ∧ SameAnswer handled ctx
  shared : forall r read joinedAt ctx,
    s.recv r = Pc.done (Answer.shared read joinedAt) ctx ->
      exists handled, s.handled read.owner = some handled ∧
        ctx.status = handled.status ∧ ctx.body = handled.body ∧
          KeepsType setup.lower handled ctx
  hit : forall r read ctx, s.recv r = Pc.done (Answer.hit read) ctx ->
    setup.key read.owner = setup.key r ->
      exists handled, s.handled read.owner = some handled ∧
        ctx.status = 200 ∧
          (handled.body.becomesText = false -> SameBody ctx.body handled.body) ∧
            KeepsType setup.lower handled ctx

/-!
## Replaying
-/

section Replaying

variable {lower : CaseMapping} {setup : Setup} {handled ctx : Response}

theorem isReplayable_nil (text : JsString) :
    isReplayable lower [] text = false := by
  unfold isReplayable
  rw [lower.toLowerCase_nil]
  rfl

theorem typeToKeep_of_replayable {text : JsString}
    (hbody : handled.body = Body.text text)
    (h : isReplayable lower handled.contentType text = true) :
    typeToKeep lower handled = some handled.contentType := by
  have hne : handled.contentType ≠ [] := by
    intro hnil
    rw [hnil, isReplayable_nil] at h
    exact absurd h (by simp)
  rw [typeToKeep, hbody]
  exact if_pos ⟨hne, h⟩

theorem typeToKeep_kept (handled : Response) :
    keptType (typeToKeep lower handled) = typeToKeep lower handled := by
  unfold typeToKeep
  split
  · split
    · rename_i hkept
      simp [keptType, hkept.left]
    · rfl
  · rfl

theorem replay_keepsType (ctx : Response) {body : Body}
    (hsame : forall text, handled.body = Body.text text -> body = Body.text text) :
    KeepsType lower handled
      (replay lower ctx body (typeToKeep lower handled)) := by
  intro text hbody h
  have hne : handled.contentType ≠ [] := by
    intro hnil
    rw [hnil, isReplayable_nil] at h
    exact absurd h (by simp)
  rw [typeToKeep_of_replayable hbody h, hsame text hbody]
  show (ite _ _ _ : Response).contentType = _
  rw [if_pos ⟨hne, h⟩]
  exact if_neg hne

theorem sameAnswer_xCache (value : JsString) (handled : Response) :
    SameAnswer handled (setup.xCache value handled) := by
  unfold Setup.xCache
  split
  · exact ⟨rfl, rfl, rfl⟩
  · exact ⟨rfl, rfl, rfl⟩

theorem sameAnswer_advertised (r : ReqId) (h : SameAnswer handled ctx) :
    SameAnswer handled (State.advertised setup r ctx) := by
  have hcontrol : forall cacheControl,
      SameAnswer handled (setCacheControl cacheControl ctx) := by
    intro cacheControl
    unfold setCacheControl
    split
    · exact h
    · split
      · exact h
      · exact ⟨h.status, h.body, h.contentType⟩
  have hset := hcontrol (setup.routeCacheControl r)
  unfold State.advertised
  simp only
  split
  · exact ⟨hset.status, hset.body, hset.contentType⟩
  · exact hset

theorem typeToKeep_congr (h : SameAnswer handled ctx) :
    typeToKeep lower ctx = typeToKeep lower handled := by
  unfold typeToKeep
  rw [h.body, h.contentType]

end Replaying

/-!
## Whose answer is where
-/

def ownResponse : Pc -> Option Response
  | Pc.storing _ ctx _ _ => some ctx
  | Pc.cleaning _ ctx _ => some ctx
  | Pc.done (Answer.fetched _ _) ctx => some ctx
  | _ => none

def beforeReturn : Pc -> Bool
  | Pc.storing _ _ _ _ => false
  | Pc.cleaning _ _ _ => false
  | Pc.done _ _ => false
  | Pc.failed => false
  | _ => true

def EntryOf (setup : Setup) (s : State) (c : Cell) : Prop :=
  exists handled, s.handled c.origin.owner = some handled ∧
    c.data = handled.body.data ∧ c.type = typeToKeep setup.lower handled

def FoundAt (setup : Setup) (s : State) (r : ReqId) (pc : Pc) : Prop :=
  match pc with
  | Pc.readingEntry _ (some (some c)) =>
      setup.key c.origin.owner = setup.key r -> EntryOf setup s c
  | Pc.done (Answer.hit read) ctx =>
      setup.key read.owner = setup.key r ->
        exists handled, s.handled read.owner = some handled ∧
          ctx.status = 200 ∧
            (handled.body.becomesText = false ->
              SameBody ctx.body handled.body) ∧
              KeepsType setup.lower handled ctx
  | _ => True

structure Agreeing (setup : Setup) (s : State) : Prop where
  pending : forall r, beforeReturn (s.recv r) = true -> s.handled r = none
  own : forall r ctx, ownResponse (s.recv r) = some ctx ->
    exists handled, s.handled r = some handled ∧ SameAnswer handled ctx
  held : forall y c, s.store.lookup y = some c ->
    y = setup.stored (setup.key c.origin.owner) -> EntryOf setup s c
  found : forall r, FoundAt setup s r (s.recv r)

section Steps

variable {setup : Setup} {s t : State} {r : ReqId} {p : PurgeId} {e : Event}

theorem agreeing_init : Agreeing setup State.init where
  pending _ _ := rfl
  own _ _ h := absurd h (by simp [State.init, ownResponse])
  held _ _ h := absurd h (by simp [State.init])
  found _ := trivial

theorem handled_kept (hs : Agreeing setup s) (h : RecvMove setup s r e t)
    {q : ReqId} {handled : Response} (hq : s.handled q = some handled) :
    t.handled q = some handled := by
  by_cases hqr : q = r
  · subst hqr
    have hpending := hs.pending q
    rw [hq] at hpending
    cases h with
    | bypassed hpc _ =>
        rw [hpc] at hpending
        exact absurd (hpending rfl) (by simp)
    | verdictThrows hpc _ _ =>
        rw [hpc] at hpending
        exact absurd (hpending rfl) (by simp)
    | refused hpc _ _ =>
        rw [hpc] at hpending
        exact absurd (hpending rfl) (by simp)
    | raced hpc _ _ _ =>
        rw [hpc] at hpending
        exact absurd (hpending rfl) (by simp)
    | store hpc _ _ _ =>
        rw [hpc] at hpending
        exact absurd (hpending rfl) (by simp)
    | _ => simpa [State.finish, State.providerSet, State.providerDelMany] using hq
  · rw [recvMove_handled_of_ne h hqr]
    exact hq

theorem pending_recvMove (hs : Agreeing setup s) (h : RecvMove setup s r e t)
    (hbefore : beforeReturn (t.recv r) = true) : t.handled r = none := by
  have hpending := hs.pending r
  cases h <;>
    simp_all [beforeReturn, State.finish, State.providerSet,
      State.providerDelMany]

theorem own_recvMove (hs : Agreeing setup s) (h : RecvMove setup s r e t)
    {ctx : Response} (hctx : ownResponse (t.recv r) = some ctx) :
    exists handled, t.handled r = some handled ∧ SameAnswer handled ctx := by
  have hown := hs.own r
  cases h with
  | bypassed _hpc _hlookup =>
      rename_i g handled
      refine ⟨handled, by simp [State.finish], ?_⟩
      rw [State.finish, State.setRecv_recv_self, ownResponse,
        Option.some.injEq] at hctx
      rw [← hctx]
      exact sameAnswer_xCache _ handled
  | refused _hpc _hlookup _hverdict =>
      rename_i g handled reason
      refine ⟨handled, by simp [State.finish], ?_⟩
      rw [State.finish, State.setRecv_recv_self, ownResponse,
        Option.some.injEq] at hctx
      rw [← hctx]
      exact sameAnswer_xCache _ handled
  | raced _hpc _hlookup _hverdict _hpurged =>
      rename_i g handled
      refine ⟨handled, by simp [State.finish], ?_⟩
      rw [State.finish, State.setRecv_recv_self, ownResponse,
        Option.some.injEq] at hctx
      rw [← hctx]
      exact sameAnswer_xCache _ handled
  | store _hpc _hlookup _hverdict _hpurged =>
      rename_i g handled
      refine ⟨handled, by simp, ?_⟩
      rw [State.setRecv_recv_self, ownResponse, Option.some.injEq] at hctx
      rw [← hctx]
      exact sameAnswer_advertised r (sameAnswer_xCache _ handled)
  | _ =>
      simp_all [ownResponse, State.finish, State.providerSet,
        State.providerDelMany]

theorem entryOf_kept (hs : Agreeing setup s) (h : RecvMove setup s r e t)
    {c : Cell} (hentry : EntryOf setup s c) : EntryOf setup t c := by
  rcases hentry with ⟨handled, hhandled, hdata, htype⟩
  exact ⟨handled, handled_kept hs h hhandled, hdata, htype⟩

theorem held_recvMove (hs : Agreeing setup s) (h : RecvMove setup s r e t)
    {y : JsString} {c : Cell} (hc : t.store.lookup y = some c)
    (hy : y = setup.stored (setup.key c.origin.owner)) :
    EntryOf setup t c := by
  rcases recvMove_store h hc with hold | hwrote
  · exact entryOf_kept hs h (hs.held y c hold hy)
  · cases hwrote with
    | etag _ _ =>
        -- No key is the key of its own ETag.
        have hkey := stored_injective hy
        exact absurd (congrArg List.length hkey)
          (by simp [Setup.etagKey, State.etagCell])
    | entry hpc _hpc =>
        rename_i g ctx etagPending
        have hown := hs.own r ctx
        rw [hpc] at hown
        rcases hown rfl with ⟨handled, hhandled, hsame⟩
        refine ⟨handled, handled_kept hs h hhandled, ?_, ?_⟩
        · rw [State.entryCell_data, hsame.body]
        · rw [State.entryCell_type, typeToKeep_congr hsame, typeToKeep_kept]

theorem foundAt_kept (hs : Agreeing setup s) (h : RecvMove setup s r e t)
    {q : ReqId} {pc : Pc} (hfound : FoundAt setup s q pc) :
    FoundAt setup t q pc := by
  unfold FoundAt at hfound ⊢
  split
  · exact fun hkey => entryOf_kept hs h (hfound hkey)
  · intro hkey
    rcases hfound hkey with ⟨handled, hhandled, hrest⟩
    exact ⟨handled, handled_kept hs h hhandled, hrest⟩
  · trivial

theorem hitResponse_agrees {etag : Option Cell} {c : Cell} {handled : Response}
    (hdata : c.data = handled.body.data)
    (htype : c.type = typeToKeep setup.lower handled) :
    (State.hitResponse setup r etag c).status = 200 ∧
      (handled.body.becomesText = false ->
        SameBody (State.hitResponse setup r etag c).body handled.body) ∧
        KeepsType setup.lower handled (State.hitResponse setup r etag c) := by
  unfold State.hitResponse
  rw [Cell.body, hdata, htype]
  refine ⟨replay_status _ _ _ _, ?_, replay_keepsType _ ?_⟩
  · rw [replay_body]
    exact sameBody_readBack
  · intro text hbody
    rw [hbody]
    rfl

theorem found_recvMove (hs : Agreeing setup s) (h : RecvMove setup s r e t) :
    FoundAt setup t r (t.recv r) := by
  have hfound := hs.found r
  cases h with
  | getEntry hpc =>
      rename_i etag timedOut
      rw [State.setRecv_recv_self]
      cases hreply : s.providerGet setup (setup.key r) timedOut with
      | none => trivial
      | some c =>
          intro hkey
          apply hs.held (setup.stored (setup.key r)) c
          · unfold State.providerGet at hreply
            split at hreply
            · exact absurd hreply (by simp)
            · exact hreply
          · rw [hkey]
  | hit hpc hpresent =>
      rename_i etag reply entry
      have hreply : reply = some entry :=
        (Option.filter_eq_some_iff.mp hpresent).left
      rw [hpc, hreply] at hfound
      rw [State.setRecv_recv_self]
      intro hkey
      rcases hfound hkey with ⟨handled, hhandled, hdata, htype⟩
      exact ⟨handled, hhandled, hitResponse_agrees hdata htype⟩
  | _ => simp [FoundAt, State.finish]

theorem agreeing_recvMove (hs : Agreeing setup s)
    (h : RecvMove setup s r e t) : Agreeing setup t := by
  constructor
  · intro q hbefore
    by_cases hq : q = r
    · subst hq
      exact pending_recvMove hs h hbefore
    · rw [recvMove_recv_of_ne h hq] at hbefore
      rw [recvMove_handled_of_ne h hq]
      exact hs.pending q hbefore
  · intro q ctx hctx
    by_cases hq : q = r
    · subst hq
      exact own_recvMove hs h hctx
    · rw [recvMove_recv_of_ne h hq] at hctx
      rw [recvMove_handled_of_ne h hq]
      exact hs.own q ctx hctx
  · exact fun y c hc hy => held_recvMove hs h hc hy
  · intro q
    by_cases hq : q = r
    · subst hq
      exact found_recvMove hs h
    · rw [recvMove_recv_of_ne h hq]
      exact foundAt_kept hs h (hs.found q)

theorem foundAt_of_handled (hhandled : t.handled = s.handled) {pc : Pc}
    (h : FoundAt setup s r pc) : FoundAt setup t r pc := by
  unfold FoundAt EntryOf at h ⊢
  rw [hhandled]
  exact h

theorem agreeing_of_same (hs : Agreeing setup s) (hrecv : t.recv = s.recv)
    (hhandled : t.handled = s.handled)
    (hstore : forall y c, t.store.lookup y = some c ->
      s.store.lookup y = some c) : Agreeing setup t := by
  constructor
  · intro r
    rw [hrecv, hhandled]
    exact hs.pending r
  · intro r
    rw [hrecv, hhandled]
    exact hs.own r
  · intro y c hc hy
    unfold EntryOf
    rw [hhandled]
    exact hs.held y c (hstore y c hc) hy
  · intro r
    rw [hrecv]
    exact foundAt_of_handled hhandled (hs.found r)

theorem agreeing_step (hs : Agreeing setup s) (h : step setup s e = some t) :
    Agreeing setup t := by
  cases moves_of_step h with
  | expire key =>
      exact agreeing_of_same hs rfl rfl
        (fun y c hc => (lookup_erase_some hc).left)
  | purge hmove =>
      have hsame := purgeMove_same hmove
      exact agreeing_of_same hs hsame.left hsame.right.right.right
        (fun y c hc => purgeMove_store hmove hc)
  | recv hmove => exact agreeing_recvMove hs hmove

theorem agreeing_reachable {ok : State -> Event -> Prop}
    (h : Reachable setup ok s) : Agreeing setup s :=
  Transition.reaches_invariant agreeing_init
    (fun _ _ _ ha _ hnext => agreeing_step ha hnext) h

/-- Who waits is answered with what the handler of the leader left. -/
theorem shared_agrees (hs : Consistent setup s) {read : Read} {joinedAt : Nat}
    {ctx : Response}
    (h : s.recv r = Pc.done (Answer.shared read joinedAt) ctx) :
    exists handled, s.handled read.owner = some handled ∧
      ctx.status = handled.status ∧ ctx.body = handled.body ∧
        KeepsType setup.lower handled ctx := by
  have hread := hs.reads r
  rw [h] at hread
  rcases hread with ⟨_, shared, hsettled, hanswer⟩
  rcases settledAt_shape (hs.settled read.owner) with hnone | hno | hyes
  · rw [hsettled] at hnone
    exact absurd hnone (by simp)
  · rw [hsettled] at hno
    exact absurd hno (by simp)
  · rcases hyes with ⟨handled, hhandled, _, hpublished⟩
    rw [hsettled, List.cons.injEq] at hpublished
    injection hpublished.left with hshared
    have hsame := @sameAnswer_xCache setup "MISS".toList handled
    refine ⟨handled, hhandled, ?_⟩
    rw [hanswer, hshared]
    unfold State.sharedResponse
    rw [hsame.body, hsame.status, typeToKeep_congr hsame]
    refine ⟨replay_status _ _ _ _, replay_body _ _ _ _, ?_⟩
    exact replay_keepsType _ (fun _ hbody => hbody)

end Steps

/--
In every run the three ways of answering agree in body and type, and in status
but for a hit, which has 200.
-/
theorem answersAgree_of_reachable {setup : Setup} {s : State}
    (h : Reachable setup Transition.Any s) : AnswersAgree setup s := by
  have hs := agreeing_reachable h
  constructor
  · intro r g finishedAt ctx hpc
    apply hs.own r ctx
    rw [hpc]
    rfl
  · exact fun r read joinedAt ctx => shared_agrees (consistent_reachable h)
  · intro r read ctx hpc
    have hfound := hs.found r
    rw [hpc] at hfound
    exact hfound

/-!
## An example
-/

def Response.created (text : JsString) : Response :=
  { Response.ok text with status := 201 }

def threeAnswers : List Event :=
  missing 0 ++ missing 1 ++
    [Event.nextDone 0 (Response.created "a".toList), Event.sharedDone 1,
      Event.setEtag 0, Event.setEntry 0, Event.writesDone 0] ++
    missing 2

theorem answersAgree_of_reachable_threeAnswers :
    AnswersAgree Setup.plain
      (Transition.last (step Setup.plain) threeAnswers State.init) :=
  answersAgree_of_reachable (Transition.reaches_last (by decide +kernel))

/-- The hit is answered `200` where the miss was answered `201`. -/
theorem hit_not_sameStatus :
    ¬ forall setup s, Reachable setup Transition.Any s ->
      forall r read ctx, s.recv r = Pc.done (Answer.hit read) ctx ->
        setup.key read.owner = setup.key r ->
          forall handled, s.handled read.owner = some handled ->
            ctx.status = handled.status := by
  intro h
  let created := Response.created "a".toList
  have hstatus := h Setup.plain
    (Transition.last (step Setup.plain) threeAnswers State.init)
    (Transition.reaches_last (by decide +kernel)) 2 (Read.mk 0 0)
    (State.hitResponse Setup.plain 2
      (some (State.etagCell Setup.plain 0 0 created))
      (State.entryCell Setup.plain 0 0 created))
    (by decide +kernel) rfl created (by decide +kernel)
  exact absurd hstatus (by decide +kernel)

end Recv
end RestCache
