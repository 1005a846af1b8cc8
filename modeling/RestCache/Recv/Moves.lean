import RestCache.Recv.Model

/-!
# What one event can do

Every enabled event, with the guards that held and the state it leads to.  The
invariants are derived from this list, not from the step function.
-/

namespace RestCache
namespace Recv

open Foundation
open Keys
open Store

namespace State

variable (s : State)

/-!
## Frames

Each update changes its own component and leaves the others alone.
-/

section Frames

variable (setup : Setup) (r : ReqId) (p : PurgeId)

@[simp] theorem setRecv_store (pc : Pc) :
    (s.setRecv r pc).store = s.store := rfl

@[simp] theorem setRecv_journal (pc : Pc) :
    (s.setRecv r pc).journal = s.journal := rfl

@[simp] theorem setRecv_inFlight (pc : Pc) :
    (s.setRecv r pc).inFlight = s.inFlight := rfl

@[simp] theorem setRecv_settled (pc : Pc) :
    (s.setRecv r pc).settled = s.settled := rfl

@[simp] theorem setRecv_handled (pc : Pc) :
    (s.setRecv r pc).handled = s.handled := rfl

@[simp] theorem setRecv_purges (pc : Pc) :
    (s.setRecv r pc).purges = s.purges := rfl

@[simp] theorem setRecv_recv_self (pc : Pc) :
    (s.setRecv r pc).recv r = pc := by
  simp [setRecv]

theorem setRecv_recv_of_ne {q : ReqId} (pc : Pc) (hne : q ≠ r) :
    (s.setRecv r pc).recv q = s.recv q := by
  simp [setRecv, hne]

@[simp] theorem setPurge_store (pc : PurgePc) :
    (s.setPurge p pc).store = s.store := rfl

@[simp] theorem setPurge_journal (pc : PurgePc) :
    (s.setPurge p pc).journal = s.journal := rfl

@[simp] theorem setPurge_inFlight (pc : PurgePc) :
    (s.setPurge p pc).inFlight = s.inFlight := rfl

@[simp] theorem setPurge_settled (pc : PurgePc) :
    (s.setPurge p pc).settled = s.settled := rfl

@[simp] theorem setPurge_handled (pc : PurgePc) :
    (s.setPurge p pc).handled = s.handled := rfl

@[simp] theorem setPurge_recv (pc : PurgePc) :
    (s.setPurge p pc).recv = s.recv := rfl

@[simp] theorem setPurge_purges_self (pc : PurgePc) :
    (s.setPurge p pc).purges p = pc := by
  simp [setPurge]

theorem setPurge_purges_of_ne {q : PurgeId} (pc : PurgePc) (hne : q ≠ p) :
    (s.setPurge p pc).purges q = s.purges q := by
  simp [setPurge, hne]

@[simp] theorem settle_store (settlement : Settlement) :
    (s.settle r settlement).store = s.store := rfl

@[simp] theorem settle_journal (settlement : Settlement) :
    (s.settle r settlement).journal = s.journal := rfl

@[simp] theorem settle_inFlight (settlement : Settlement) :
    (s.settle r settlement).inFlight = s.inFlight := rfl

@[simp] theorem settle_handled (settlement : Settlement) :
    (s.settle r settlement).handled = s.handled := rfl

@[simp] theorem settle_recv (settlement : Settlement) :
    (s.settle r settlement).recv = s.recv := rfl

@[simp] theorem settle_purges (settlement : Settlement) :
    (s.settle r settlement).purges = s.purges := rfl

@[simp] theorem settle_settled_self (settlement : Settlement) :
    (s.settle r settlement).settled r = s.settled r ++ [settlement] := by
  simp [settle]

theorem settle_settled_of_ne {q : ReqId} (settlement : Settlement)
    (hne : q ≠ r) : (s.settle r settlement).settled q = s.settled q := by
  simp [settle, hne]

@[simp] theorem fetch_store : (s.fetch setup r).store = s.store := by
  unfold fetch
  simp only [setRecv_store]
  split <;> rfl

@[simp] theorem fetch_journal : (s.fetch setup r).journal = s.journal := by
  unfold fetch
  simp only [setRecv_journal]
  split <;> rfl

@[simp] theorem fetch_settled : (s.fetch setup r).settled = s.settled := by
  unfold fetch
  simp only [setRecv_settled]
  split <;> rfl

@[simp] theorem fetch_handled : (s.fetch setup r).handled = s.handled := by
  unfold fetch
  simp only [setRecv_handled]
  split <;> rfl

@[simp] theorem fetch_purges : (s.fetch setup r).purges = s.purges := by
  unfold fetch
  simp only [setRecv_purges]
  split <;> rfl

@[simp] theorem fetch_recv_self :
    (s.fetch setup r).recv r = Pc.inNext s.generation := by
  unfold fetch
  simp

theorem fetch_recv_of_ne {q : ReqId} (hne : q ≠ r) :
    (s.fetch setup r).recv q = s.recv q := by
  unfold fetch
  rw [setRecv_recv_of_ne _ _ _ hne]
  split <;> rfl

theorem fetch_inFlight {key : JsString} {read : Read}
    (h : (s.fetch setup r).inFlight key = some read) :
    s.inFlight key = some read ∨
      (setup.lookup r = true ∧ key = setup.key r ∧
        read = Read.mk r s.generation) := by
  unfold fetch at h
  simp only [setRecv_inFlight] at h
  split at h
  · rename_i hlookup
    by_cases hkey : key = setup.key r
    · subst hkey
      simp only [Function.update_self, Option.some.injEq] at h
      exact Or.inr ⟨hlookup, rfl, h.symm⟩
    · simp only [Function.update_of_ne hkey] at h
      exact Or.inl h
  · exact Or.inl h

@[simp] theorem forget_store (g : Nat) :
    (s.forget setup r g).store = s.store := by
  unfold forget
  split <;> rfl

@[simp] theorem forget_journal (g : Nat) :
    (s.forget setup r g).journal = s.journal := by
  unfold forget
  split <;> rfl

@[simp] theorem forget_settled (g : Nat) :
    (s.forget setup r g).settled = s.settled := by
  unfold forget
  split <;> rfl

@[simp] theorem forget_handled (g : Nat) :
    (s.forget setup r g).handled = s.handled := by
  unfold forget
  split <;> rfl

@[simp] theorem forget_recv (g : Nat) :
    (s.forget setup r g).recv = s.recv := by
  unfold forget
  split <;> rfl

@[simp] theorem forget_purges (g : Nat) :
    (s.forget setup r g).purges = s.purges := by
  unfold forget
  split <;> rfl

theorem forget_inFlight {g : Nat} {key : JsString} {read : Read} :
    (s.forget setup r g).inFlight key = some read <->
      s.inFlight key = some read ∧
        ¬ (setup.lookup r = true ∧ key = setup.key r ∧
          read = Read.mk r g) := by
  unfold forget
  split
  · rename_i hown
    by_cases hkey : key = setup.key r
    · subst hkey
      simp only [Function.update_self, reduceCtorEq, hown.right,
        Option.some.injEq, hown.left, true_and, false_iff]
      intro hgiven
      rcases hgiven with ⟨rfl, hne⟩
      exact hne rfl
    · simp [hkey]
  · rename_i hother
    constructor
    · intro h
      refine ⟨h, ?_⟩
      intro hgiven
      rcases hgiven with ⟨hlookup, rfl, rfl⟩
      exact hother ⟨hlookup, h⟩
    · exact And.left

def afterRead (generation : Nat) (ctx : Response) : State :=
  ({ s with handled := Function.update s.handled r ctx } : State).forget setup r
    generation

@[simp] theorem afterRead_store (g : Nat) (ctx : Response) :
    (s.afterRead setup r g ctx).store = s.store := by
  simp [afterRead]

@[simp] theorem afterRead_journal (g : Nat) (ctx : Response) :
    (s.afterRead setup r g ctx).journal = s.journal := by
  simp [afterRead]

@[simp] theorem afterRead_settled (g : Nat) (ctx : Response) :
    (s.afterRead setup r g ctx).settled = s.settled := by
  simp [afterRead]

@[simp] theorem afterRead_recv (g : Nat) (ctx : Response) :
    (s.afterRead setup r g ctx).recv = s.recv := by
  simp [afterRead]

@[simp] theorem afterRead_purges (g : Nat) (ctx : Response) :
    (s.afterRead setup r g ctx).purges = s.purges := by
  simp [afterRead]

@[simp] theorem afterRead_handled_self (g : Nat) (ctx : Response) :
    (s.afterRead setup r g ctx).handled r = some ctx := by
  simp [afterRead]

theorem afterRead_handled_of_ne {q : ReqId} (g : Nat) (ctx : Response)
    (hne : q ≠ r) :
    (s.afterRead setup r g ctx).handled q = s.handled q := by
  simp [afterRead, hne]

theorem afterRead_inFlight {g : Nat} {ctx : Response} {key : JsString}
    {read : Read} :
    (s.afterRead setup r g ctx).inFlight key = some read <->
      s.inFlight key = some read ∧
        ¬ (setup.lookup r = true ∧ key = setup.key r ∧
          read = Read.mk r g) :=
  forget_inFlight _ setup r

end Frames

end State

/-!
## Moves
-/

def published (setup : Setup) (ctx : Response) : Settlement :=
  Settlement.resolved
    (SharedResponse.mk ctx.body ctx.status (typeToKeep setup.lower ctx))

inductive RecvMove (setup : Setup) (s : State) (r : ReqId) :
    Event -> State -> Prop where
  | begin : s.recv r = Pc.idle ->
      RecvMove setup s r (Event.begin r) (s.setRecv r Pc.hitpass)
  | lookupEtag : s.recv r = Pc.hitpass -> setup.lookup r = true ->
      setup.enableEtag = true ->
      RecvMove setup s r (Event.hitpassDone r)
        (s.setRecv r (Pc.readingEtag none))
  | lookupEntry : s.recv r = Pc.hitpass -> setup.lookup r = true ->
      setup.enableEtag = false ->
      RecvMove setup s r (Event.hitpassDone r)
        (s.setRecv r (Pc.readingEntry none none))
  | bypass : s.recv r = Pc.hitpass -> setup.lookup r = false ->
      RecvMove setup s r (Event.hitpassDone r) (s.fetch setup r)
  | getEtag {timedOut : Bool} : s.recv r = Pc.readingEtag none ->
      RecvMove setup s r (Event.getEtag r timedOut)
        (s.setRecv r (Pc.readingEtag
          (some (s.providerGet setup (setup.etagKey r) timedOut))))
  | noEtag {reply : Option Cell} : s.recv r = Pc.readingEtag (some reply) ->
      present reply = none ->
      RecvMove setup s r (Event.etagDone r)
        (s.setRecv r (Pc.readingEntry none none))
  | notModified {reply : Option Cell} {etag : Cell} {ctx : Response} :
      s.recv r = Pc.readingEtag (some reply) -> present reply = some etag ->
      etagMatch (setup.request r).ctx (setup.toText etag.data) = true ->
      ctx.status = 304 ->
      RecvMove setup s r (Event.etagDone r)
        (s.setRecv r (Pc.done (Answer.notModified etag.origin) ctx))
  | keepEtag {reply : Option Cell} {etag : Cell} :
      s.recv r = Pc.readingEtag (some reply) -> present reply = some etag ->
      etagMatch (setup.request r).ctx (setup.toText etag.data) = false ->
      RecvMove setup s r (Event.etagDone r)
        (s.setRecv r (Pc.readingEntry (some etag) none))
  | getEntry {etag : Option Cell} {timedOut : Bool} :
      s.recv r = Pc.readingEntry etag none ->
      RecvMove setup s r (Event.getEntry r timedOut)
        (s.setRecv r (Pc.readingEntry etag
          (some (s.providerGet setup (setup.key r) timedOut))))
  | hit {etag reply : Option Cell} {entry : Cell} :
      s.recv r = Pc.readingEntry etag (some reply) ->
      present reply = some entry ->
      RecvMove setup s r (Event.entryDone r)
        (s.setRecv r (Pc.done (Answer.hit entry.origin)
          (State.hitResponse setup r etag entry)))
  | join {etag reply : Option Cell} {pending : Read} :
      s.recv r = Pc.readingEntry etag (some reply) -> present reply = none ->
      s.inFlight (setup.key r) = some pending ->
      s.purgedSince pending.generation (setup.key r) = false ->
      RecvMove setup s r (Event.entryDone r)
        (s.setRecv r (Pc.joined pending s.generation))
  | miss {etag reply : Option Cell} :
      s.recv r = Pc.readingEntry etag (some reply) -> present reply = none ->
      (forall pending, s.inFlight (setup.key r) = some pending ->
        s.purgedSince pending.generation (setup.key r) = true) ->
      RecvMove setup s r (Event.entryDone r) (s.fetch setup r)
  | shared {read : Read} {joinedAt : Nat} {shared : SharedResponse} :
      s.recv r = Pc.joined read joinedAt ->
      (s.settled read.owner).head? = some (Settlement.resolved shared) ->
      RecvMove setup s r (Event.sharedDone r)
        (s.setRecv r (Pc.done (Answer.shared read joinedAt)
          (State.sharedResponse setup r shared)))
  | released {read : Read} {joinedAt : Nat} :
      s.recv r = Pc.joined read joinedAt ->
      (s.settled read.owner).head? = some Settlement.rejected ->
      RecvMove setup s r (Event.sharedDone r) (s.fetch setup r)
  | bypassed {g : Nat} {ctx : Response} : s.recv r = Pc.inNext g ->
      setup.lookup r = false ->
      RecvMove setup s r (Event.nextDone r ctx)
        ((s.afterRead setup r g ctx).finish r g
          (setup.xCache "HITPASS".toList ctx))
  | verdictThrows {g : Nat} {ctx : Response} : s.recv r = Pc.inNext g ->
      setup.lookup r = true ->
      isCacheable (setup.xCache "MISS".toList ctx) = none ->
      RecvMove setup s r (Event.nextDone r ctx)
        (((s.afterRead setup r g ctx).settle r Settlement.rejected).setRecv r
          Pc.failed)
  | refused {g : Nat} {ctx : Response} {reason : JsString} :
      s.recv r = Pc.inNext g -> setup.lookup r = true ->
      isCacheable (setup.xCache "MISS".toList ctx) =
        some (Verdict.refused reason) ->
      RecvMove setup s r (Event.nextDone r ctx)
        (((s.afterRead setup r g ctx).settle r Settlement.rejected).finish r g
          (setup.xCache "MISS".toList ctx))
  | raced {g : Nat} {ctx : Response} : s.recv r = Pc.inNext g ->
      setup.lookup r = true ->
      isCacheable (setup.xCache "MISS".toList ctx) = some Verdict.cacheable ->
      s.purgedSince g (setup.key r) = true ->
      RecvMove setup s r (Event.nextDone r ctx)
        (((s.afterRead setup r g ctx).settle r
          (published setup (setup.xCache "MISS".toList ctx))).finish r g
            (setup.xCache "MISS".toList ctx))
  | store {g : Nat} {ctx : Response} : s.recv r = Pc.inNext g ->
      setup.lookup r = true ->
      isCacheable (setup.xCache "MISS".toList ctx) = some Verdict.cacheable ->
      s.purgedSince g (setup.key r) = false ->
      RecvMove setup s r (Event.nextDone r ctx)
        (((s.afterRead setup r g ctx).settle r
          (published setup (setup.xCache "MISS".toList ctx))).setRecv r
            (Pc.storing g
              (State.advertised setup r (setup.xCache "MISS".toList ctx))
              setup.enableEtag true))
  | threw {g : Nat} : s.recv r = Pc.inNext g -> setup.lookup r = true ->
      RecvMove setup s r (Event.nextThrows r)
        (((s.forget setup r g).settle r Settlement.rejected).setRecv r
          Pc.failed)
  | bypassThrew {g : Nat} : s.recv r = Pc.inNext g ->
      setup.lookup r = false ->
      RecvMove setup s r (Event.nextThrows r)
        ((s.forget setup r g).setRecv r Pc.failed)
  | setEtag {g : Nat} {ctx : Response} {bodyPending : Bool} :
      s.recv r = Pc.storing g ctx true bodyPending ->
      RecvMove setup s r (Event.setEtag r)
        ((s.providerSet setup (setup.etagKey r)
            (State.etagCell setup r g ctx)).setRecv r
          (Pc.storing g ctx false bodyPending))
  | setEntry {g : Nat} {ctx : Response} {etagPending : Bool} :
      s.recv r = Pc.storing g ctx etagPending true ->
      RecvMove setup s r (Event.setEntry r)
        ((s.providerSet setup (setup.key r)
            (State.entryCell setup r g ctx)).setRecv r
          (Pc.storing g ctx etagPending false))
  | overtaken {g : Nat} {ctx : Response} :
      s.recv r = Pc.storing g ctx false false ->
      s.purgedSince g (setup.key r) = true ->
      RecvMove setup s r (Event.writesDone r)
        (s.setRecv r (Pc.cleaning g ctx false))
  | kept {g : Nat} {ctx : Response} :
      s.recv r = Pc.storing g ctx false false ->
      s.purgedSince g (setup.key r) = false ->
      RecvMove setup s r (Event.writesDone r) (s.finish r g ctx)
  | delPair {g : Nat} {ctx : Response} :
      s.recv r = Pc.cleaning g ctx false ->
      RecvMove setup s r (Event.delPair r)
        ((s.providerDelMany setup [setup.key r, setup.etagKey r]).setRecv r
          (Pc.cleaning g ctx true))
  | cleaned {g : Nat} {ctx : Response} :
      s.recv r = Pc.cleaning g ctx true ->
      RecvMove setup s r (Event.delPairDone r) (s.finish r g ctx)

inductive PurgeMove (setup : Setup) (s : State) (p : PurgeId) :
    Event -> State -> Prop where
  | start : s.purges p = PurgePc.idle ->
      PurgeMove setup s p (Event.startPurge p) (s.recordPurge setup p)
  | list {g : Nat} : s.purges p = PurgePc.listing g none ->
      PurgeMove setup s p (Event.listKeys p)
        (s.setPurge p (PurgePc.listing g (some (s.logicalKeys setup))))
  | nothing {g : Nat} {keys : List JsString} :
      s.purges p = PurgePc.listing g (some keys) ->
      keys.filter (fun key => covers key (setup.purge p)) = [] ->
      PurgeMove setup s p (Event.keysListed p)
        (s.setPurge p (PurgePc.returned g))
  | select {g : Nat} {keys : List JsString} :
      s.purges p = PurgePc.listing g (some keys) ->
      PurgeMove setup s p (Event.keysListed p)
        (s.setPurge p (PurgePc.deleting g
          (keys.filter (fun key => covers key (setup.purge p))) false))
  | delete {g : Nat} {keys : List JsString} :
      s.purges p = PurgePc.deleting g keys false ->
      PurgeMove setup s p (Event.delKeys p)
        ((s.providerDelMany setup keys).setPurge p
          (PurgePc.deleting g keys true))
  | deleted {g : Nat} {keys : List JsString} :
      s.purges p = PurgePc.deleting g keys true ->
      PurgeMove setup s p (Event.keysDeleted p)
        (s.setPurge p (PurgePc.returned g))
  | clear {g : Nat} : s.purges p = PurgePc.clearing g false ->
      PurgeMove setup s p (Event.clear p)
        (({ s with store := ∅ } : State).setPurge p (PurgePc.clearing g true))
  | cleared {g : Nat} : s.purges p = PurgePc.clearing g true ->
      PurgeMove setup s p (Event.cleared p)
        (s.setPurge p (PurgePc.returned g))

inductive Moves (setup : Setup) (s : State) : Event -> State -> Prop where
  | recv {r : ReqId} {e : Event} {t : State} :
      RecvMove setup s r e t -> Moves setup s e t
  | purge {p : PurgeId} {e : Event} {t : State} :
      PurgeMove setup s p e t -> Moves setup s e t
  | expire (key : JsString) :
      Moves setup s (Event.expire key)
        { s with store := s.store.erase key }

/-!
## Every step is one of them
-/

variable {setup : Setup} {s t : State}

theorem moves_afterHitpass {r : ReqId} (h : s.recv r = Pc.hitpass) :
    RecvMove setup s r (Event.hitpassDone r) (s.afterHitpass setup r) := by
  unfold State.afterHitpass
  split
  · rename_i hlookup
    split
    · rename_i hetag
      exact RecvMove.lookupEtag h hlookup hetag
    · rename_i hetag
      exact RecvMove.lookupEntry h hlookup (by simpa using hetag)
  · rename_i hlookup
    exact RecvMove.bypass h (by simpa using hlookup)

theorem moves_afterEtag {r : ReqId} {reply : Option Cell}
    (h : s.recv r = Pc.readingEtag (some reply)) :
    RecvMove setup s r (Event.etagDone r) (s.afterEtag setup r reply) := by
  unfold State.afterEtag
  split
  · rename_i hnone
    exact RecvMove.noEtag h hnone
  · rename_i etag hsome
    simp only
    split
    · rename_i hmatch
      exact RecvMove.notModified h hsome hmatch rfl
    · rename_i hmatch
      exact RecvMove.keepEtag h hsome (by simpa using hmatch)

theorem moves_afterEntry {r : ReqId} {etag reply : Option Cell}
    (h : s.recv r = Pc.readingEntry etag (some reply)) :
    RecvMove setup s r (Event.entryDone r)
      (s.afterEntry setup r etag reply) := by
  unfold State.afterEntry
  split
  · rename_i entry hsome
    exact RecvMove.hit h hsome
  · rename_i hnone
    split
    · rename_i pending hpending
      split
      · rename_i hpurged
        apply RecvMove.miss h hnone
        intro read hread
        rw [hpending] at hread
        injection hread with hread
        rw [← hread]
        exact hpurged
      · rename_i hpurged
        exact RecvMove.join h hnone hpending (by simpa using hpurged)
    · rename_i hpending
      apply RecvMove.miss h hnone
      intro read hread
      rw [hpending] at hread
      exact absurd hread (by simp)

theorem moves_afterNext {r : ReqId} {g : Nat} {ctx : Response}
    (h : s.recv r = Pc.inNext g) :
    RecvMove setup s r (Event.nextDone r ctx) (s.afterNext setup r g ctx) := by
  change RecvMove setup s r (Event.nextDone r ctx)
    ((s.afterRead setup r g ctx).deliver setup r g ctx)
  unfold State.deliver
  split
  · rename_i hlookup
    simp only
    split
    · rename_i hverdict
      exact RecvMove.verdictThrows h hlookup hverdict
    · rename_i reason hverdict
      exact RecvMove.refused h hlookup hverdict
    · rename_i hverdict
      have hpurged : ((s.afterRead setup r g ctx).settle r
          (published setup (setup.xCache "MISS".toList ctx))).purgedSince g
            (setup.key r) = s.purgedSince g (setup.key r) := by
        simp [State.purgedSince]
      change RecvMove setup s r (Event.nextDone r ctx)
        (if ((s.afterRead setup r g ctx).settle r
            (published setup (setup.xCache "MISS".toList ctx))).purgedSince g
              (setup.key r) then _ else _)
      rw [hpurged]
      split
      · rename_i hraced
        exact RecvMove.raced h hlookup hverdict hraced
      · rename_i hraced
        exact RecvMove.store h hlookup hverdict (by simpa using hraced)
  · rename_i hlookup
    exact RecvMove.bypassed h (by simpa using hlookup)

theorem moves_afterThrow {r : ReqId} {g : Nat} (h : s.recv r = Pc.inNext g) :
    RecvMove setup s r (Event.nextThrows r) (s.afterThrow setup r g) := by
  unfold State.afterThrow
  simp only
  split
  · rename_i hlookup
    exact RecvMove.threw h hlookup
  · rename_i hlookup
    exact RecvMove.bypassThrew h (by simpa using hlookup)

theorem moves_afterListing {p : PurgeId} {g : Nat} {keys : List JsString}
    (h : s.purges p = PurgePc.listing g (some keys)) :
    PurgeMove setup s p (Event.keysListed p)
      (s.afterListing setup p g keys) := by
  unfold State.afterListing
  simp only
  split
  · rename_i hnothing
    exact PurgeMove.nothing h hnothing
  · exact PurgeMove.select h

theorem moves_of_step {e : Event} (h : step setup s e = some t) :
    Moves setup s e t := by
  cases e with
  | begin r =>
      simp only [step] at h
      split at h <;> simp only [Option.some.injEq, reduceCtorEq] at h
      exact h ▸ Moves.recv (RecvMove.begin ‹_›)
  | hitpassDone r =>
      simp only [step] at h
      split at h <;> simp only [Option.some.injEq, reduceCtorEq] at h
      exact h ▸ Moves.recv (moves_afterHitpass ‹_›)
  | getEtag r timedOut =>
      simp only [step] at h
      split at h <;> simp only [Option.some.injEq, reduceCtorEq] at h
      exact h ▸ Moves.recv (RecvMove.getEtag ‹_›)
  | etagDone r =>
      simp only [step] at h
      split at h <;> simp only [Option.some.injEq, reduceCtorEq] at h
      exact h ▸ Moves.recv (moves_afterEtag ‹_›)
  | getEntry r timedOut =>
      simp only [step] at h
      split at h <;> simp only [Option.some.injEq, reduceCtorEq] at h
      exact h ▸ Moves.recv (RecvMove.getEntry ‹_›)
  | entryDone r =>
      simp only [step] at h
      split at h <;> simp only [Option.some.injEq, reduceCtorEq] at h
      exact h ▸ Moves.recv (moves_afterEntry ‹_›)
  | sharedDone r =>
      simp only [step] at h
      split at h
      · rename_i read joinedAt hjoined
        rw [Option.map_eq_some_iff] at h
        rcases h with ⟨settlement, hsettled, rfl⟩
        cases settlement with
        | resolved shared =>
            exact Moves.recv (RecvMove.shared hjoined hsettled)
        | rejected => exact Moves.recv (RecvMove.released hjoined hsettled)
      · simp at h
  | nextDone r ctx =>
      simp only [step] at h
      split at h <;> simp only [Option.some.injEq, reduceCtorEq] at h
      exact h ▸ Moves.recv (moves_afterNext ‹_›)
  | nextThrows r =>
      simp only [step] at h
      split at h <;> simp only [Option.some.injEq, reduceCtorEq] at h
      exact h ▸ Moves.recv (moves_afterThrow ‹_›)
  | setEtag r =>
      simp only [step] at h
      split at h <;> simp only [Option.some.injEq, reduceCtorEq] at h
      exact h ▸ Moves.recv (RecvMove.setEtag ‹_›)
  | setEntry r =>
      simp only [step] at h
      split at h <;> simp only [Option.some.injEq, reduceCtorEq] at h
      exact h ▸ Moves.recv (RecvMove.setEntry ‹_›)
  | writesDone r =>
      simp only [step] at h
      split at h
      · rename_i g ctx hstoring
        rw [Option.some.injEq] at h
        subst h
        unfold State.afterWrites
        split
        · rename_i hpurged
          exact Moves.recv (RecvMove.overtaken hstoring hpurged)
        · rename_i hpurged
          exact Moves.recv (RecvMove.kept hstoring (by simpa using hpurged))
      · simp at h
  | delPair r =>
      simp only [step] at h
      split at h <;> simp only [Option.some.injEq, reduceCtorEq] at h
      exact h ▸ Moves.recv (RecvMove.delPair ‹_›)
  | delPairDone r =>
      simp only [step] at h
      split at h <;> simp only [Option.some.injEq, reduceCtorEq] at h
      exact h ▸ Moves.recv (RecvMove.cleaned ‹_›)
  | startPurge p =>
      simp only [step] at h
      split at h <;> simp only [Option.some.injEq, reduceCtorEq] at h
      exact h ▸ Moves.purge (PurgeMove.start ‹_›)
  | listKeys p =>
      simp only [step] at h
      split at h <;> simp only [Option.some.injEq, reduceCtorEq] at h
      exact h ▸ Moves.purge (PurgeMove.list ‹_›)
  | keysListed p =>
      simp only [step] at h
      split at h <;> simp only [Option.some.injEq, reduceCtorEq] at h
      exact h ▸ Moves.purge (moves_afterListing ‹_›)
  | delKeys p =>
      simp only [step] at h
      split at h <;> simp only [Option.some.injEq, reduceCtorEq] at h
      exact h ▸ Moves.purge (PurgeMove.delete ‹_›)
  | keysDeleted p =>
      simp only [step] at h
      split at h <;> simp only [Option.some.injEq, reduceCtorEq] at h
      exact h ▸ Moves.purge (PurgeMove.deleted ‹_›)
  | clear p =>
      simp only [step] at h
      split at h <;> simp only [Option.some.injEq, reduceCtorEq] at h
      exact h ▸ Moves.purge (PurgeMove.clear ‹_›)
  | cleared p =>
      simp only [step] at h
      split at h <;> simp only [Option.some.injEq, reduceCtorEq] at h
      exact h ▸ Moves.purge (PurgeMove.cleared ‹_›)
  | expire key =>
      simp only [step, Option.some.injEq] at h
      exact h ▸ Moves.expire key

end Recv
end RestCache
