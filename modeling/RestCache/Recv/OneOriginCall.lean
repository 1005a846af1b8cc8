import RestCache.Recv.Coalescing
import RestCache.Recv.StoreMoves

/-!
# One trip to the origin

A request that begins while another one for its key is at the origin is
answered by that read or from the store, unless the read leaves the map behind
its back: when it has looked in the store in vain and not yet in the map, or
before the write that follows the read has landed.
-/

namespace RestCache
namespace Recv

open Foundation
open Keys
open Store

variable {setup : Setup} {s t : State} {r : ReqId} {p : PurgeId} {e : Event}

/-!
## Calm runs
-/

/--
No purge starts, no operation of the provider fails, no request is bypassed,
and every handler leaves a response that may be stored.
-/
def Calm (setup : Setup) (_ : State) : Event -> Prop
  | Event.begin r => setup.lookup r = true
  | Event.getEtag _ timedOut => timedOut = false
  | Event.getEntry _ timedOut => timedOut = false
  | Event.nextDone _ ctx => isCacheable ctx = some Verdict.cacheable
  | Event.nextThrows _ => False
  | Event.startPurge _ => False
  | _ => True

/-- What every calm run keeps. -/
structure Calmed (setup : Setup) (s : State) : Prop where
  recorded : s.journal.recorded = []
  purges : forall p, s.purges p = PurgePc.idle
  lookup : forall r, s.recv r ≠ Pc.idle -> setup.lookup r = true
  cleaning : forall r g ctx deleted, s.recv r ≠ Pc.cleaning g ctx deleted
  settled : forall r, Settlement.rejected ∉ s.settled r
  registered : forall r g, s.recv r = Pc.inNext g ->
    s.inFlight (setup.key r) = some (Read.mk r g)

theorem purgedSince_calmed (hs : Calmed setup s) {g : Nat}
    (hg : g <= s.journal.recorded.length) (key : JsString) :
    s.purgedSince g key = false := by
  have hlength : s.journal.recorded.length = 0 := by
    rw [hs.recorded]
    rfl
  have hnow : g = s.journal.log.generation := by
    rw [s.journal.keeps.generation]
    omega
  show Store.purgedSince s.journal.log g key = false
  unfold Store.purgedSince
  rw [if_pos hnow]

theorem calmed_init : Calmed setup State.init where
  recorded := rfl
  purges _ := rfl
  lookup _ h := absurd rfl h
  cleaning _ _ _ _ := Pc.noConfusion
  settled _ := List.not_mem_nil
  registered _ _ h := Pc.noConfusion h

theorem fetch_registers (hlookup : setup.lookup r = true) (key : JsString) :
    (s.fetch setup r).inFlight key =
      if key = setup.key r then some (Read.mk r s.generation)
      else s.inFlight key := by
  unfold State.fetch
  simp only [hlookup, if_true, State.setRecv_inFlight]
  exact Function.update_apply ..

theorem recvMove_keeps_read (hmove : RecvMove setup s r e t)
    (hcalm : Calm setup s e) (hs : Consistent setup s)
    (hcalmed : Calmed setup s) {key : JsString} {read : Read}
    (hread : s.inFlight key = some read)
    (hother : forall ctx, e = Event.nextDone r ctx -> read.owner ≠ r) :
    t.inFlight key = some read := by
  have hcurrent : s.purgedSince read.generation key = false := by
    rcases hs.inFlight key read hread with ⟨hnext, _, _⟩
    have hreads := hs.reads read.owner
    rw [hnext] at hreads
    exact purgedSince_calmed hcalmed hreads key
  have hforget : forall g ctx, read.owner ≠ r ->
      (s.afterRead setup r g ctx).inFlight key = some read := by
    intro g ctx hne
    refine (State.afterRead_inFlight s setup r).mpr ⟨hread, ?_⟩
    intro hgiven
    rcases hgiven with ⟨_, _, rfl⟩
    exact hne rfl
  cases hmove with
  | miss hpc hreply hnone =>
      rw [fetch_registers (hcalmed.lookup r (by simp [hpc]))]
      split
      · rename_i hkey
        have hpurged := hnone read (hkey ▸ hread)
        rw [← hkey, hcurrent] at hpurged
        exact absurd hpurged Bool.false_ne_true
      · exact hread
  | bypass hpc hlookup =>
      rw [hcalmed.lookup r (by simp [hpc])] at hlookup
      exact absurd hlookup (by simp)
  | @released read' joinedAt hpc hsettled =>
      exact absurd (List.mem_of_head? hsettled) (hcalmed.settled read'.owner)
  | bypassed _ _ => exact hforget _ _ (hother _ rfl)
  | verdictThrows _ _ _ => exact hforget _ _ (hother _ rfl)
  | refused _ _ _ => exact hforget _ _ (hother _ rfl)
  | raced _ _ _ _ => exact hforget _ _ (hother _ rfl)
  | store _ _ _ _ => exact hforget _ _ (hother _ rfl)
  | threw _ _ => exact False.elim hcalm
  | bypassThrew _ _ => exact False.elim hcalm
  | _ => exact hread

theorem calmed_recvMove (hmove : RecvMove setup s r e t)
    (hcalm : Calm setup s e) (hs : Consistent setup s)
    (hcalmed : Calmed setup s) : Calmed setup t where
  recorded := by
    rw [recvMove_journal hmove]
    exact hcalmed.recorded
  purges p := by
    rw [recvMove_purges hmove]
    exact hcalmed.purges p
  lookup q hq := by
    by_cases hqr : q = r
    · subst hqr
      cases hmove with
      | begin hpc => exact hcalm
      | _ => exact hcalmed.lookup q (by simp_all)
    · rw [recvMove_recv_of_ne hmove hqr] at hq
      exact hcalmed.lookup q hq
  cleaning q g ctx deleted := by
    have hreads := hs.reads q
    have hnot := hcalmed.cleaning q
    by_cases hqr : q = r
    · subst hqr
      cases hmove with
      | overtaken hpc hpurged =>
          rw [hpc] at hreads
          rw [purgedSince_calmed hcalmed hreads] at hpurged
          exact absurd hpurged Bool.false_ne_true
      | _ => simp_all [State.finish]
    · rw [recvMove_recv_of_ne hmove hqr]
      exact hnot g ctx deleted
  settled q := by
    have hnot := hcalmed.settled q
    by_cases hqr : q = r
    · subst hqr
      cases hmove with
      | verdictThrows _ _ hverdict =>
          rw [isCacheable_xCache, show isCacheable _ = _ from hcalm] at hverdict
          exact absurd hverdict (by simp)
      | refused _ _ hverdict =>
          rw [isCacheable_xCache, show isCacheable _ = _ from hcalm] at hverdict
          exact absurd hverdict (by simp)
      | threw _ _ => exact False.elim hcalm
      | bypassThrew _ _ => exact False.elim hcalm
      | _ => simpa [State.finish, published, State.providerSet,
          State.providerDelMany] using hnot
    · rw [recvMove_settled_of_ne hmove hqr]
      exact hnot
  registered q g hq := by
    by_cases hqr : q = r
    · subst hqr
      cases hmove with
      | miss hpc hreply hnone =>
          rw [fetch_registers (hcalmed.lookup q (by simp [hpc])), if_pos rfl]
          rw [State.fetch_recv_self] at hq
          rw [Pc.inNext.inj hq]
      | bypass hpc hlookup =>
          rw [hcalmed.lookup q (by simp [hpc])] at hlookup
          exact absurd hlookup (by simp)
      | @released read joinedAt hpc hsettled =>
          exact absurd (List.mem_of_head? hsettled) (hcalmed.settled read.owner)
      | _ => simp [State.finish, State.providerSet, State.providerDelMany] at hq
    · rw [recvMove_recv_of_ne hmove hqr] at hq
      exact recvMove_keeps_read hmove hcalm hs hcalmed
        (hcalmed.registered q g hq) (fun _ _ => hqr)

theorem calmed_step (h : step setup s e = some t) (hcalm : Calm setup s e)
    (hs : Consistent setup s) (hcalmed : Calmed setup s) : Calmed setup t := by
  cases moves_of_step h with
  | recv hmove => exact calmed_recvMove hmove hcalm hs hcalmed
  | @purge p _ _ hmove =>
      have hidle := hcalmed.purges p
      cases hmove with
      | start _ => exact False.elim hcalm
      | _ => simp_all
  | expire key =>
      exact {
        recorded := hcalmed.recorded
        purges := hcalmed.purges
        lookup := hcalmed.lookup
        cleaning := hcalmed.cleaning
        settled := hcalmed.settled
        registered := hcalmed.registered }

theorem calmed_reachable {ok : State -> Event -> Prop}
    (hok : forall s e, ok s e -> Calm setup s e)
    (h : Reachable setup ok s) : Calmed setup s := by
  refine Transition.reaches_invariant_along (J := Consistent setup) calmed_init
    (fun _ => consistent_reachable) ?_ h
  intro a e b ha hcalmed hoka hnext
  exact calmed_step hnext (hok a e hoka) ha hcalmed

/-!
## Following a read
-/

inductive ToLook : Pc -> Prop where
  | hitpass : ToLook Pc.hitpass
  | etag (reply : Option (Option Cell)) : ToLook (Pc.readingEtag reply)
  | entry (etag : Option Cell) : ToLook (Pc.readingEntry etag none)

inductive Looked (reply : Option Cell) : Pc -> Prop where
  | entry (etag : Option Cell) :
      Looked reply (Pc.readingEntry etag (some reply))

def FoundNothing (pc : Pc) : Prop :=
  exists reply, Looked reply pc ∧ present reply = none

def Running (read : Read) (s : State) : Prop :=
  s.recv read.owner = Pc.inNext read.generation

def BodyPending (read : Read) (s : State) : Prop :=
  exists g ctx etagPending,
    s.recv read.owner = Pc.storing g ctx etagPending true

def HasEntry (setup : Setup) (read : Read) (s : State) : Prop :=
  exists cell,
    s.store.lookup (setup.stored (setup.key read.owner)) = some cell ∧
      cell.data.truthy = true

/--
The read does not leave the map when the follower has found nothing in the
store, the follower does not look in the store before the body has landed, and
what lands for the key is not read as missing and does not expire before it has
looked.
-/
def Timely (setup : Setup) (read : Read) (follower : ReqId) (s : State) :
    Event -> Prop
  | Event.nextDone r _ => r = read.owner -> ¬ FoundNothing (s.recv follower)
  | Event.getEntry r _ => r = follower -> ¬ BodyPending read s
  | Event.setEntry r => setup.key r = setup.key read.owner ->
      forall g ctx etagPending,
        s.recv r = Pc.storing g ctx etagPending true ->
          ctx.body.data.truthy = true
  | Event.expire key => key = setup.stored (setup.key read.owner) ->
      ToLook (s.recv follower) -> Running read s
  | _ => True

def ServedBy (read : Read) : Pc -> Prop
  | Pc.hitpass => True
  | Pc.readingEtag _ => True
  | Pc.readingEntry _ _ => True
  | Pc.joined other _ => other = read
  | Pc.done (Answer.notModified _) _ => True
  | Pc.done (Answer.hit _) _ => True
  | Pc.done (Answer.shared other _) _ => other = read
  | _ => False

/-- What carries a follower through the run. -/
inductive Follows (setup : Setup) (read : Read) (follower : ReqId)
    (s : State) : Prop where
  | running : ToLook (s.recv follower) ∨ FoundNothing (s.recv follower) ->
      Running read s -> Follows setup read follower s
  | landing : ToLook (s.recv follower) ->
      BodyPending read s ∨ HasEntry setup read s ->
        Follows setup read follower s
  | found {reply : Option Cell} {cell : Cell} :
      Looked reply (s.recv follower) -> present reply = some cell ->
        Follows setup read follower s
  | joined {joinedAt : Nat} : s.recv follower = Pc.joined read joinedAt ->
      Follows setup read follower s
  | answered {answer : Answer} {ctx : Response} :
      s.recv follower = Pc.done answer ctx -> ServedBy read (s.recv follower) ->
        Follows setup read follower s

theorem servedBy_toLook {read : Read} {pc : Pc} (h : ToLook pc) :
    ServedBy read pc := by
  cases h <;> exact trivial

theorem servedBy_looked {read : Read} {reply : Option Cell} {pc : Pc}
    (h : Looked reply pc) : ServedBy read pc := by
  cases h
  exact trivial

theorem servedBy_of_follows {read : Read} {follower : ReqId}
    (h : Follows setup read follower s) : ServedBy read (s.recv follower) := by
  cases h with
  | running hlooking hrunning =>
      rcases hlooking with hlook | ⟨reply, hlooked, _⟩
      · exact servedBy_toLook hlook
      · exact servedBy_looked hlooked
  | landing hlook _ => exact servedBy_toLook hlook
  | found hlooked _ => exact servedBy_looked hlooked
  | joined hpc =>
      rw [hpc]
      exact rfl
  | answered _ hserved => exact hserved

section Steps

variable {read : Read} {follower : ReqId}

theorem toLook_move (hmove : RecvMove setup s follower e t)
    (hlook : ToLook (s.recv follower))
    (hlookup : setup.lookup follower = true) :
    (ToLook (t.recv follower) ∧ t.store = s.store ∧
      forall r, r ≠ follower -> t.recv r = s.recv r) ∨
    (exists origin ctx,
      t.recv follower = Pc.done (Answer.notModified origin) ctx) ∨
    exists timedOut, e = Event.getEntry follower timedOut ∧
      Looked (s.providerGet setup (setup.key follower) timedOut)
        (t.recv follower) ∧
      forall r, r ≠ follower -> t.recv r = s.recv r := by
  have hothers : forall r, r ≠ follower -> t.recv r = s.recv r :=
    fun r hne => recvMove_recv_of_ne hmove hne
  cases hmove with
  | lookupEtag _ _ _ =>
      apply Or.inl
      refine ⟨?_, rfl, hothers⟩
      rw [State.setRecv_recv_self]
      exact ToLook.etag none
  | lookupEntry _ _ _ =>
      apply Or.inl
      refine ⟨?_, rfl, hothers⟩
      rw [State.setRecv_recv_self]
      exact ToLook.entry none
  | bypass _ hbypass =>
      rw [hlookup] at hbypass
      exact absurd hbypass (by simp)
  | getEtag _ =>
      apply Or.inl
      refine ⟨?_, rfl, hothers⟩
      rw [State.setRecv_recv_self]
      exact ToLook.etag _
  | noEtag _ _ =>
      apply Or.inl
      refine ⟨?_, rfl, hothers⟩
      rw [State.setRecv_recv_self]
      exact ToLook.entry none
  | keepEtag _ _ _ =>
      apply Or.inl
      refine ⟨?_, rfl, hothers⟩
      rw [State.setRecv_recv_self]
      exact ToLook.entry _
  | notModified _ _ _ _ =>
      exact Or.inr (Or.inl ⟨_, _, State.setRecv_recv_self _ _ _⟩)
  | @getEntry etag timedOut _ =>
      refine Or.inr (Or.inr ⟨timedOut, rfl, ?_, hothers⟩)
      rw [State.setRecv_recv_self]
      exact Looked.entry etag
  | _ =>
      rename_i hpc
      simp_all only
      cases hlook

theorem looked_move (hmove : RecvMove setup s follower e t)
    {reply : Option Cell} (hlooked : Looked reply (s.recv follower)) :
    (exists cell ctx, present reply = some cell ∧
      t.recv follower = Pc.done (Answer.hit cell.origin) ctx) ∨
    (present reply = none ∧
      ((exists pending joinedAt,
        s.inFlight (setup.key follower) = some pending ∧
          t.recv follower = Pc.joined pending joinedAt) ∨
      forall pending, s.inFlight (setup.key follower) = some pending ->
        s.purgedSince pending.generation (setup.key follower) = true)) := by
  have hsame : forall {etag other : Option Cell},
      s.recv follower = Pc.readingEntry etag (some other) -> other = reply := by
    intro etag other hpc
    rw [hpc] at hlooked
    cases hlooked
    rfl
  cases hmove with
  | hit hpc hcell =>
      rw [hsame hpc] at hcell
      exact Or.inl ⟨_, _, hcell, State.setRecv_recv_self _ _ _⟩
  | join hpc hnone hpending _ =>
      rw [hsame hpc] at hnone
      exact Or.inr ⟨hnone, Or.inl ⟨_, _, hpending, State.setRecv_recv_self _ _ _⟩⟩
  | miss hpc hnone hpurged =>
      rw [hsame hpc] at hnone
      exact Or.inr ⟨hnone, Or.inr hpurged⟩
  | _ =>
      simp_all only
      cases hlooked

theorem hasEntry_move (hmd5 : forall text, setup.md5 text ≠ [])
    (hmove : RecvMove setup s r e t) (hcalmed : Calmed setup s)
    (htimely : Timely setup read follower s e)
    (h : HasEntry setup read s) : HasEntry setup read t := by
  rcases h with ⟨cell, hcell, htruthy⟩
  have hwritten : forall key written,
      (key = setup.key read.owner -> written.data.truthy = true) ->
      exists cell, (s.store.insert (setup.stored key) written).lookup
          (setup.stored (setup.key read.owner)) = some cell ∧
        cell.data.truthy = true := by
    intro key written hwritten
    by_cases hkey : setup.stored (setup.key read.owner) = setup.stored key
    · refine ⟨written, ?_, hwritten (stored_injective hkey).symm⟩
      rw [hkey]
      exact AList.lookup_insert s.store
    · refine ⟨cell, ?_, htruthy⟩
      rw [AList.lookup_insert_ne hkey]
      exact hcell
  cases hmove with
  | @setEtag g ctx _ hpc =>
      apply hwritten (setup.etagKey r) (State.etagCell setup r g ctx)
      intro _
      rw [State.etagCell_data]
      exact decide_eq_true (hmd5 _)
  | @setEntry g ctx _ hpc =>
      apply hwritten (setup.key r) (State.entryCell setup r g ctx)
      intro hkey
      rw [State.entryCell_data]
      exact htimely hkey _ _ _ hpc
  | delPair hpc => exact absurd hpc (hcalmed.cleaning r _ _ _)
  | _ => exact ⟨cell, by simpa [State.finish] using hcell, htruthy⟩

theorem landing_move (hmd5 : forall text, setup.md5 text ≠ [])
    (hmove : RecvMove setup s r e t) (hcalmed : Calmed setup s)
    (htimely : Timely setup read follower s e)
    (h : BodyPending read s ∨ HasEntry setup read s) :
    BodyPending read t ∨ HasEntry setup read t := by
  rcases h with ⟨g, ctx, etagPending, hpending⟩ | hentry
  · by_cases howner : read.owner = r
    · subst howner
      cases hmove with
      | setEtag hpc =>
          rw [hpending] at hpc
          cases hpc
          exact Or.inl ⟨_, _, _, State.setRecv_recv_self _ _ _⟩
      | @setEntry g' ctx' _ hpc =>
          apply Or.inr
          refine ⟨State.entryCell setup read.owner g' ctx', ?_, ?_⟩
          · exact AList.lookup_insert s.store
          · rw [State.entryCell_data]
            exact htimely rfl _ _ _ hpc
      | _ => simp_all
    · refine Or.inl ⟨g, ctx, etagPending, ?_⟩
      rw [recvMove_recv_of_ne hmove howner]
      exact hpending
  · exact Or.inr (hasEntry_move hmd5 hmove hcalmed htimely hentry)

/-- While the origin is called, the follower looks or joins the call. -/
theorem follows_running (hmove : RecvMove setup s follower e t)
    (hs : Consistent setup s) (hcalmed : Calmed setup s)
    (hkey : setup.key follower = setup.key read.owner)
    (hlookup : setup.lookup follower = true)
    (hlooking : ToLook (s.recv follower) ∨ FoundNothing (s.recv follower))
    (hnext : Running read s) : Follows setup read follower t := by
  have hpending : s.inFlight (setup.key follower) = some read := by
    rw [hkey]
    exact hcalmed.registered _ _ hnext
  have hunpurged : s.purgedSince read.generation (setup.key follower) = false := by
    have hreads := hs.reads read.owner
    rw [hnext] at hreads
    exact purgedSince_calmed hcalmed hreads _
  have hgone : read.owner ≠ follower := by
    intro howner
    rw [Running, howner] at hnext
    rw [hnext] at hlooking
    rcases hlooking with hlook | ⟨_, hlooked, _⟩
    · cases hlook
    · cases hlooked
  have hstill : Running read t := by
    rw [Running, recvMove_recv_of_ne hmove hgone]
    exact hnext
  rcases hlooking with hlook | ⟨reply, hlooked, hnone⟩
  · rcases toLook_move hmove hlook hlookup with ⟨hlook', _⟩ |
      ⟨origin, ctx, hdone⟩ | ⟨timedOut, _, hlooked, _⟩
    · exact Follows.running (Or.inl hlook') hstill
    · exact Follows.answered hdone (by
        rw [hdone]
        exact trivial)
    · cases hreply : present (s.providerGet setup (setup.key follower)
          timedOut) with
      | none => exact Follows.running (Or.inr ⟨_, hlooked, hreply⟩) hstill
      | some cell => exact Follows.found hlooked hreply
  · rcases looked_move hmove hlooked with ⟨cell, ctx, hcell, _⟩ |
      ⟨_, ⟨pending, joinedAt, hfound, hjoined⟩ | hpurged⟩
    · rw [hnone] at hcell
      exact absurd hcell (by simp)
    · rw [hpending, Option.some.injEq] at hfound
      rw [← hfound] at hjoined
      exact Follows.joined hjoined
    · have htrue := hpurged read hpending
      rw [hunpurged] at htrue
      exact absurd htrue Bool.false_ne_true

/-- The body has landed before the follower looks, or it still waits to look. -/
theorem follows_landing (hmove : RecvMove setup s follower e t)
    (hcalm : Calm setup s e) (htimely : Timely setup read follower s e)
    (hkey : setup.key follower = setup.key read.owner)
    (hlookup : setup.lookup follower = true)
    (hlook : ToLook (s.recv follower))
    (hlanding : BodyPending read s ∨ HasEntry setup read s) :
    Follows setup read follower t := by
  rcases toLook_move hmove hlook hlookup with ⟨hlook', hstore, hothers⟩ |
    ⟨origin, ctx, hdone⟩ | ⟨timedOut, hevent, hlooked, _⟩
  · apply Follows.landing hlook'
    rcases hlanding with ⟨g, ctx, etagPending, hpc⟩ | ⟨cell, hcell, htruthy⟩
    · refine Or.inl ⟨g, ctx, etagPending, ?_⟩
      rw [hothers read.owner]
      · exact hpc
      · intro howner
        rw [← howner, hpc] at hlook
        cases hlook
    · refine Or.inr ⟨cell, ?_, htruthy⟩
      rw [hstore]
      exact hcell
  · exact Follows.answered hdone (by
      rw [hdone]
      exact trivial)
  · subst hevent
    rcases hlanding with hpending | ⟨cell, hcell, htruthy⟩
    · exact absurd hpending (htimely rfl)
    · apply Follows.found hlooked
      rw [show timedOut = false from hcalm, hkey]
      show present (s.store.lookup _) = some cell
      rw [hcell]
      exact Option.filter_some_pos htruthy

theorem follows_own (hmove : RecvMove setup s follower e t)
    (hcalm : Calm setup s e) (htimely : Timely setup read follower s e)
    (hs : Consistent setup s) (hcalmed : Calmed setup s)
    (hkey : setup.key follower = setup.key read.owner)
    (hlookup : setup.lookup follower = true)
    (h : Follows setup read follower s) : Follows setup read follower t := by
  cases h with
  | running hlooking hnext =>
      exact follows_running hmove hs hcalmed hkey hlookup hlooking hnext
  | landing hlook hlanding =>
      exact follows_landing hmove hcalm htimely hkey hlookup hlook hlanding
  | found hlooked hcell =>
      rcases looked_move hmove hlooked with ⟨_, _, _, hdone⟩ | ⟨hnone, _⟩
      · exact Follows.answered hdone (by
          rw [hdone]
          exact trivial)
      · rw [hcell] at hnone
        exact absurd hnone (by simp)
  | joined hpc =>
      cases hmove with
      | @shared other joinedAt shared hjoined _ =>
          rw [hpc] at hjoined
          have hread : read = other := (Pc.joined.inj hjoined).left
          apply Follows.answered (State.setRecv_recv_self _ _ _)
          rw [State.setRecv_recv_self]
          exact hread.symm
      | @released other joinedAt hjoined hsettled =>
          exact absurd (List.mem_of_head? hsettled) (hcalmed.settled other.owner)
      | _ => simp_all
  | answered hpc _ => cases hmove <;> simp_all

theorem follows_other (hmd5 : forall text, setup.md5 text ≠ [])
    (hmove : RecvMove setup s r e t) (hne : follower ≠ r)
    (hcalm : Calm setup s e) (htimely : Timely setup read follower s e)
    (hs : Consistent setup s) (hcalmed : Calmed setup s)
    (h : Follows setup read follower s) : Follows setup read follower t := by
  have hsame : t.recv follower = s.recv follower :=
    recvMove_recv_of_ne hmove hne
  cases h with
  | running hlooking hnext =>
      by_cases howner : read.owner = r
      · -- The read ends; the follower is to find its body.
        subst howner
        have hnot : forall {ctx}, e = Event.nextDone read.owner ctx ->
            ToLook (t.recv follower) := by
          intro ctx hevent
          subst hevent
          rw [hsame]
          exact hlooking.resolve_right (htimely rfl)
        have hreads := hs.reads read.owner
        rw [hnext] at hreads
        cases hmove with
        | store _ _ _ _ =>
            exact Follows.landing (hnot rfl)
              (Or.inl ⟨_, _, _, State.setRecv_recv_self _ _ _⟩)
        | raced hpc _ _ hpurged =>
            rw [show s.recv read.owner = _ from hnext] at hpc
            rw [← Pc.inNext.inj hpc, purgedSince_calmed hcalmed hreads] at hpurged
            exact absurd hpurged Bool.false_ne_true
        | verdictThrows _ _ hverdict =>
            rw [isCacheable_xCache, show isCacheable _ = _ from hcalm] at hverdict
            exact absurd hverdict (by simp)
        | refused _ _ hverdict =>
            rw [isCacheable_xCache, show isCacheable _ = _ from hcalm] at hverdict
            exact absurd hverdict (by simp)
        | threw _ _ => exact False.elim hcalm
        | bypassThrew _ _ => exact False.elim hcalm
        | bypassed hpc hbypass =>
            rw [hcalmed.lookup read.owner (by simp [hpc])] at hbypass
            exact absurd hbypass (by simp)
        | _ => simp_all [Running]
      · apply Follows.running
        · rw [hsame]
          exact hlooking
        · rw [Running, recvMove_recv_of_ne hmove howner]
          exact hnext
  | landing hlook hlanding =>
      apply Follows.landing
      · rw [hsame]
        exact hlook
      · exact landing_move hmd5 hmove hcalmed htimely hlanding
  | found hlooked hcell =>
      rw [← hsame] at hlooked
      exact Follows.found hlooked hcell
  | joined hpc =>
      rw [← hsame] at hpc
      exact Follows.joined hpc
  | answered hpc hserved =>
      rw [← hsame] at hpc hserved
      exact Follows.answered hpc hserved

theorem follows_step (hmd5 : forall text, setup.md5 text ≠ [])
    (hkey : setup.key follower = setup.key read.owner)
    (hlookup : setup.lookup follower = true)
    (hs : Consistent setup s) (hcalmed : Calmed setup s)
    (h : Follows setup read follower s)
    (hcalm : Calm setup s e) (htimely : Timely setup read follower s e)
    (hstep : step setup s e = some t) : Follows setup read follower t := by
  cases moves_of_step hstep with
  | @recv r _ _ hmove =>
      by_cases hr : follower = r
      · subst hr
        exact follows_own hmove hcalm htimely hs hcalmed hkey hlookup h
      · exact follows_other hmd5 hmove hr hcalm htimely hs hcalmed h
  | @purge p _ _ hmove =>
      have hidle := hcalmed.purges p
      cases hmove with
      | start _ => exact False.elim hcalm
      | _ => simp_all
  | expire key =>
      cases h with
      | running hlooking hnext => exact Follows.running hlooking hnext
      | landing hlook hlanding =>
          by_cases hown : key = setup.stored (setup.key read.owner)
          · exact Follows.running (Or.inl hlook) (htimely hown hlook)
          · refine Follows.landing hlook ?_
            rcases hlanding with hpending | ⟨cell, hcell, htruthy⟩
            · exact Or.inl hpending
            · refine Or.inr ⟨cell, ?_, htruthy⟩
              rw [AList.lookup_erase_ne (Ne.symm hown)]
              exact hcell
      | found hlooked hcell => exact Follows.found hlooked hcell
      | joined hpc => exact Follows.joined hpc
      | answered hpc hserved => exact Follows.answered hpc hserved

end Steps

/-!
## Whole runs
-/

/--
A request that begins while a read of its key runs is answered by that read or
from the store, in every run whose steps are timely.
-/
theorem servedBy_of_reaches {setup : Setup} {s s' t : State} {read : Read}
    {follower : ReqId} (hmd5 : forall text, setup.md5 text ≠ [])
    (hreach : Reachable setup (Calm setup) s)
    (hread : s.recv read.owner = Pc.inNext read.generation)
    (hkey : setup.key follower = setup.key read.owner)
    (hlookup : setup.lookup follower = true)
    (hbegin : step setup s (Event.begin follower) = some s')
    (hrun : Transition.Reaches (step setup)
      (fun a e => Calm setup a e ∧ Timely setup read follower a e) s' t) :
    ServedBy read (t.recv follower) := by
  have hcalm : Calm setup s (Event.begin follower) := hlookup
  have hreach' : Reachable setup (Calm setup) s' :=
    Transition.reaches_tail hreach hcalm hbegin
  have hstart : Follows setup read follower s' := by
    cases moves_of_step hbegin with
    | recv hmove =>
        cases hmove with
        | begin hidle =>
            apply Follows.running
            · rw [State.setRecv_recv_self]
              exact Or.inl ToLook.hitpass
            · rw [Running, State.setRecv_recv_of_ne]
              · exact hread
              · intro howner
                rw [howner, hidle] at hread
                exact Pc.noConfusion hread
    | purge hmove => cases hmove
  apply @servedBy_of_follows setup
  refine Transition.reaches_invariant_along
    (J := fun a => Consistent setup a ∧ Calmed setup a) hstart ?_ ?_ hrun
  · intro a ha
    have hcalm : Reachable setup (Calm setup) a :=
      Transition.reaches_trans hreach'
        (Transition.reaches_mono (fun _ _ hok => hok.left) ha)
    exact ⟨consistent_reachable hcalm, calmed_reachable (fun _ _ hok => hok) hcalm⟩
  · intro a e b ha hfollows hok hnext
    exact follows_step hmd5 hkey hlookup ha.left ha.right hfollows hok.left
      hok.right hnext

/-!
## Two runs

The first request is at the origin when the second begins.  In the first run the
second looks in the map in time and joins it; in the second it finds nothing in
the store, the first leaves the map, and the second goes to the origin too.
-/

def calmCheck (setup : Setup) (_ : State) : Event -> Bool
  | Event.begin r => setup.lookup r
  | Event.getEtag _ timedOut => !timedOut
  | Event.getEntry _ timedOut => !timedOut
  | Event.nextDone _ ctx => isCacheable ctx = some Verdict.cacheable
  | Event.nextThrows _ => false
  | Event.startPurge _ => false
  | _ => true

theorem calm_of_check (h : calmCheck setup s e = true) : Calm setup s e := by
  cases e <;> simp_all [calmCheck, Calm]

def foundNothing : Pc -> Bool
  | Pc.readingEntry _ (some reply) => present reply = none
  | _ => false

def bodyPending : Pc -> Bool
  | Pc.storing _ _ _ pending => pending
  | _ => false

def landsTruthy : Pc -> Bool
  | Pc.storing _ ctx _ true => ctx.body.data.truthy
  | _ => true

def timelyCheck (read : Read) (follower : ReqId) (s : State) : Event -> Bool
  | Event.nextDone r _ => r ≠ read.owner ∨ foundNothing (s.recv follower) = false
  | Event.getEntry r _ => r ≠ follower ∨ bodyPending (s.recv read.owner) = false
  | Event.setEntry r => landsTruthy (s.recv r)
  | Event.expire _ => false
  | _ => true

theorem timely_of_check {read : Read} {follower : ReqId}
    (h : timelyCheck read follower s e = true) :
    Timely setup read follower s e := by
  cases e with
  | nextDone r ctx =>
      intro howner hnothing
      rcases hnothing with ⟨reply, hlooked, hnone⟩
      have hfound : foundNothing (s.recv follower) = true := by
        generalize s.recv follower = pc at hlooked
        cases hlooked
        exact decide_eq_true hnone
      simp [timelyCheck, howner, hfound] at h
  | getEntry r timedOut =>
      intro hfollower hpending
      rcases hpending with ⟨g, ctx, etagPending, hpc⟩
      simp [timelyCheck, hfollower, hpc, bodyPending] at h
  | setEntry r =>
      intro _ g ctx etagPending hpc
      simpa [timelyCheck, hpc, landsTruthy] using h
  | expire key => exact absurd h Bool.false_ne_true
  | _ => exact trivial

def joinsInTime : List Event :=
  [Event.hitpassDone 1, Event.getEtag 1 false, Event.etagDone 1,
    Event.getEntry 1 false, Event.entryDone 1,
    Event.nextDone 0 (Response.ok "a".toList), Event.sharedDone 1]

theorem plainMd5_ne_nil (text : JsString) : plainMd5 text ≠ [] := by
  unfold plainMd5
  split <;> decide

theorem calm_reaches {events : List Event}
    (h : (Transition.execChecked (step setup) (calmCheck setup) events
      s).isSome = true) :
    Transition.Reaches (step setup) (Calm setup) s
      (Transition.lastChecked (step setup) (calmCheck setup) events s) :=
  @Transition.reaches_lastChecked _ _ (step setup) (Calm setup)
    (calmCheck setup) (fun _ => True) events s (fun _ _ _ _ _ _ => trivial)
    (fun _ _ _ => calm_of_check) trivial h

def secondBegins : State :=
  Transition.lastChecked (step Setup.plain) (calmCheck Setup.plain)
    (missing 0) State.init

def secondBegun : State :=
  secondBegins.setRecv 1 Pc.hitpass

theorem servedBy_of_reaches_joinsInTime :
    exists t : State, ServedBy (Read.mk 0 0) (t.recv 1) ∧
      exists ctx, t.recv 1 =
        Pc.done (Answer.shared (Read.mk 0 0) 0) ctx := by
  have hrun := @Transition.reaches_lastChecked _ _ (step Setup.plain)
    (fun a e => Calm Setup.plain a e ∧ Timely Setup.plain (Read.mk 0 0) 1 a e)
    (fun a e => calmCheck Setup.plain a e && timelyCheck (Read.mk 0 0) 1 a e)
    (fun _ => True) joinsInTime secondBegun (fun _ _ _ _ _ _ => trivial)
    (fun a e _ hcheck =>
      ⟨calm_of_check (Bool.and_eq_true_iff.mp hcheck).left,
        timely_of_check (Bool.and_eq_true_iff.mp hcheck).right⟩)
    trivial (by decide +kernel)
  have hreach : Reachable Setup.plain (Calm Setup.plain) secondBegins :=
    calm_reaches (by decide +kernel)
  refine ⟨_, servedBy_of_reaches plainMd5_ne_nil hreach (by decide +kernel)
    rfl rfl (show step Setup.plain secondBegins (Event.begin 1) =
      some secondBegun from rfl) hrun, ?_⟩
  exact ⟨State.sharedResponse Setup.plain 1
    (SharedResponse.mk (Body.text "a".toList) 200 none), by decide +kernel⟩

def leavesBetween : List Event :=
  [Event.hitpassDone 1, Event.getEtag 1 false, Event.etagDone 1,
    Event.getEntry 1 false, Event.nextDone 0 (Response.ok "a".toList),
    Event.entryDone 1]

theorem not_servedBy_leavesBetween :
    exists s s' t : State, Reachable Setup.plain (Calm Setup.plain) s ∧
      s.recv 0 = Pc.inNext 0 ∧
      step Setup.plain s (Event.begin 1) = some s' ∧
      Transition.Reaches (step Setup.plain) (Calm Setup.plain) s' t ∧
      t.recv 1 = Pc.inNext 0 ∧
      ¬ ServedBy (Read.mk 0 0) (t.recv 1) := by
  have hnext : (Transition.lastChecked (step Setup.plain)
      (calmCheck Setup.plain) leavesBetween secondBegun).recv 1 =
        Pc.inNext 0 := by
    decide +kernel
  refine ⟨secondBegins, secondBegun, _, calm_reaches (by decide +kernel),
    by decide +kernel, rfl, calm_reaches (by decide +kernel), hnext, ?_⟩
  rw [hnext]
  exact id

end Recv
end RestCache
