import RestCache.Recv.Moves

/-!
# Reads in flight

The facts that tie the map of reads in flight, the settlements, the generations
and the program points of all requests together.
-/

namespace RestCache
namespace Recv

open Foundation
open Keys
open Store

/-!
## The invariant
-/

def PublishedBy (setup : Setup) (handled : Option Response)
    (settled : List Settlement) : Prop :=
  exists ctx, handled = some ctx ∧
    isCacheable (setup.xCache "MISS".toList ctx) = some Verdict.cacheable ∧
    settled = [published setup (setup.xCache "MISS".toList ctx)]

/-- What has been settled when the request stands at `pc`. -/
def SettledAt (setup : Setup) (r : ReqId) (pc : Pc) (handled : Option Response)
    (settled : List Settlement) : Prop :=
  match pc with
  | Pc.storing _ _ _ _ =>
      setup.lookup r = true ∧ PublishedBy setup handled settled
  | Pc.cleaning _ _ _ =>
      setup.lookup r = true ∧ PublishedBy setup handled settled
  | Pc.done (Answer.fetched _ _) _ =>
      (setup.lookup r = false ∧ settled = []) ∨
        (setup.lookup r = true ∧ (settled = [Settlement.rejected] ∨
          PublishedBy setup handled settled))
  | Pc.failed =>
      (setup.lookup r = false ∧ settled = []) ∨
        (setup.lookup r = true ∧ settled = [Settlement.rejected])
  | _ => settled = []

/-- The request may wait for the read: it joined before any purge of its key. -/
structure Joinable (setup : Setup) (recorded : List RegExps) (r : ReqId)
    (read : Read) (joinedAt : Nat) : Prop where
  key : setup.key read.owner = setup.key r
  lookup : setup.lookup read.owner = true
  ordered : read.generation ≤ joinedAt
  past : joinedAt ≤ recorded.length
  current : ¬ Purged (recorded.take joinedAt) read.generation (setup.key r)

/-- What is known of the reads the request made or waited for. -/
def ReadAt (setup : Setup) (recorded : List RegExps)
    (settled : ReqId -> List Settlement) (r : ReqId) (pc : Pc) : Prop :=
  match pc with
  | Pc.inNext g => g ≤ recorded.length
  | Pc.storing g _ _ _ => g ≤ recorded.length
  | Pc.cleaning g _ _ => g ≤ recorded.length
  | Pc.joined read joinedAt => Joinable setup recorded r read joinedAt
  | Pc.done (Answer.shared read joinedAt) ctx =>
      Joinable setup recorded r read joinedAt ∧
        exists shared, settled read.owner = [Settlement.resolved shared] ∧
          ctx = State.sharedResponse setup r shared
  | Pc.done (Answer.fetched g finishedAt) _ =>
      g ≤ finishedAt ∧ finishedAt ≤ recorded.length
  | _ => True

def PurgePc.generation? : PurgePc -> Option Nat
  | PurgePc.idle => none
  | PurgePc.listing g _ => some g
  | PurgePc.deleting g _ _ => some g
  | PurgePc.clearing g _ => some g
  | PurgePc.returned g => some g

def NumberedAs (recorded : List RegExps) (r : RegExps) (g : Nat) : Prop :=
  exists n, g = n + 1 ∧ recorded[n]? = some r

structure Consistent (setup : Setup) (s : State) : Prop where
  settled : forall r, SettledAt setup r (s.recv r) (s.handled r) (s.settled r)
  inFlight : forall key read, s.inFlight key = some read ->
    s.recv read.owner = Pc.inNext read.generation ∧
      setup.lookup read.owner = true ∧ setup.key read.owner = key
  reads : forall r,
    ReadAt setup s.journal.recorded s.settled r (s.recv r)
  purges : forall p g, (s.purges p).generation? = some g ->
    NumberedAs s.journal.recorded (setup.purge p) g

theorem generation_eq (s : State) :
    s.generation = s.journal.recorded.length :=
  s.journal.keeps.generation

/-!
## What a move leaves alone
-/

variable {setup : Setup} {s t : State} {r q : ReqId} {p : PurgeId} {e : Event}

theorem recvMove_recv_of_ne (h : RecvMove setup s r e t) (hne : q ≠ r) :
    t.recv q = s.recv q := by
  cases h <;> simp [State.setRecv_recv_of_ne, State.fetch_recv_of_ne, hne,
    State.finish, State.providerSet, State.providerDelMany]

theorem recvMove_settled_of_ne (h : RecvMove setup s r e t) (hne : q ≠ r) :
    t.settled q = s.settled q := by
  cases h <;> simp [State.settle_settled_of_ne, hne, State.finish,
    State.providerSet, State.providerDelMany]

theorem recvMove_handled_of_ne (h : RecvMove setup s r e t) (hne : q ≠ r) :
    t.handled q = s.handled q := by
  cases h <;> simp [State.afterRead_handled_of_ne, hne, State.finish,
    State.providerSet, State.providerDelMany]

theorem recvMove_journal (h : RecvMove setup s r e t) :
    t.journal = s.journal := by
  cases h <;> simp [State.finish, State.providerSet, State.providerDelMany]

theorem recvMove_purges (h : RecvMove setup s r e t) :
    t.purges = s.purges := by
  cases h <;> simp [State.finish, State.providerSet, State.providerDelMany]

@[simp]
theorem recordPurge_recorded :
    (s.recordPurge setup p).journal.recorded =
      s.journal.recorded ++ [setup.purge p] := by
  unfold State.recordPurge
  simp only
  split <;> rfl

theorem recordPurge_same :
    (s.recordPurge setup p).store = s.store ∧
      (s.recordPurge setup p).recv = s.recv ∧
      (s.recordPurge setup p).inFlight = s.inFlight ∧
      (s.recordPurge setup p).settled = s.settled ∧
      (s.recordPurge setup p).handled = s.handled := by
  unfold State.recordPurge
  simp only
  split <;> exact ⟨rfl, rfl, rfl, rfl, rfl⟩

theorem purgeMove_same (h : PurgeMove setup s p e t) :
    t.recv = s.recv ∧ t.inFlight = s.inFlight ∧ t.settled = s.settled ∧
      t.handled = s.handled := by
  cases h with
  | start _ =>
      rcases @recordPurge_same setup s p with
        ⟨_, hrecv, hinFlight, hsettled, hhandled⟩
      exact ⟨hrecv, hinFlight, hsettled, hhandled⟩
  | _ => exact ⟨rfl, rfl, rfl, rfl⟩

theorem purgeMove_recorded (h : PurgeMove setup s p e t) :
    t.journal.recorded = s.journal.recorded ∨
      t.journal.recorded = s.journal.recorded ++ [setup.purge p] := by
  cases h with
  | start _ => exact Or.inr recordPurge_recorded
  | _ => exact Or.inl rfl

/-!
## One step
-/

theorem settledAt_shape {pc : Pc} {handled : Option Response}
    {settled : List Settlement} (h : SettledAt setup r pc handled settled) :
    settled = [] ∨ settled = [Settlement.rejected] ∨
      PublishedBy setup handled settled := by
  unfold SettledAt at h
  split at h
  · exact Or.inr (Or.inr h.right)
  · exact Or.inr (Or.inr h.right)
  · rcases h with h | h
    · exact Or.inl h.right
    · exact Or.inr h.right
  · rcases h with h | h
    · exact Or.inl h.right
    · exact Or.inr (Or.inl h.right)
  · exact Or.inl h

theorem settledAt_move (h : Moves setup s e t)
    (hs : forall q, SettledAt setup q (s.recv q) (s.handled q) (s.settled q))
    (q : ReqId) : SettledAt setup q (t.recv q) (t.handled q) (t.settled q) := by
  cases h with
  | expire key => exact hs q
  | purge hmove =>
      rcases purgeMove_same hmove with ⟨hrecv, _, hsettled, hhandled⟩
      rw [hrecv, hsettled, hhandled]
      exact hs q
  | recv hmove =>
      rename_i r
      by_cases hq : q = r
      · subst hq
        have hq := hs q
        cases hmove with
        | bypassed hpc hlookup =>
            rw [hpc] at hq
            simp_all [SettledAt, State.finish]
        | verdictThrows hpc hlookup hverdict =>
            rw [hpc] at hq
            simp_all [SettledAt]
        | refused hpc hlookup hverdict =>
            rw [hpc] at hq
            simp_all [SettledAt, State.finish]
        | raced hpc hlookup hverdict hpurged =>
            rw [hpc] at hq
            simp_all [SettledAt, State.finish, PublishedBy]
        | store hpc hlookup hverdict hpurged =>
            rw [hpc] at hq
            simp_all [SettledAt, PublishedBy]
        | threw hpc hlookup =>
            rw [hpc] at hq
            simp_all [SettledAt]
        | bypassThrew hpc hlookup =>
            rw [hpc] at hq
            simp_all [SettledAt]
        | kept hpc hpurged =>
            rw [hpc] at hq
            simp only [SettledAt] at hq
            simp [SettledAt, State.finish, hq]
        | cleaned hpc =>
            rw [hpc] at hq
            simp only [SettledAt] at hq
            simp [SettledAt, State.finish, hq]
        | _ =>
            rename_i hpc
            simp_all [SettledAt, State.providerSet, State.providerDelMany]
      · rw [recvMove_recv_of_ne hmove hq, recvMove_settled_of_ne hmove hq,
          recvMove_handled_of_ne hmove hq]
        exact hs q

theorem recvMove_inFlight (h : RecvMove setup s r e t) {key : JsString}
    {read : Read} (hread : t.inFlight key = some read) :
    (s.inFlight key = some read ∧ forall g, s.recv r = Pc.inNext g ->
        ¬ (setup.lookup r = true ∧ key = setup.key r ∧ read = Read.mk r g)) ∨
      (setup.lookup r = true ∧ key = setup.key r ∧
        read = Read.mk r s.generation ∧ t.recv r = Pc.inNext s.generation) := by
  have hfetch : forall hpc : (forall g, s.recv r ≠ Pc.inNext g),
      (s.fetch setup r).inFlight key = some read ->
      (s.inFlight key = some read ∧ forall g, s.recv r = Pc.inNext g ->
        ¬ (setup.lookup r = true ∧ key = setup.key r ∧ read = Read.mk r g)) ∨
      (setup.lookup r = true ∧ key = setup.key r ∧
        read = Read.mk r s.generation ∧
        (s.fetch setup r).recv r = Pc.inNext s.generation) := by
    intro hpc hread
    rcases State.fetch_inFlight s setup r hread with hold | hnew
    · exact Or.inl ⟨hold, fun g hg => absurd hg (hpc g)⟩
    · exact Or.inr ⟨hnew.left, hnew.right.left, hnew.right.right,
        State.fetch_recv_self s setup r⟩
  have hafter : forall {g}, s.recv r = Pc.inNext g ->
      (s.forget setup r g).inFlight key = some read ->
      s.inFlight key = some read ∧ forall g, s.recv r = Pc.inNext g ->
        ¬ (setup.lookup r = true ∧ key = setup.key r ∧
          read = Read.mk r g) := by
    intro g hpc hread
    rcases (State.forget_inFlight s setup r).mp hread with ⟨hold, hother⟩
    refine ⟨hold, ?_⟩
    intro g' hg'
    rw [hpc] at hg'
    injection hg' with hg'
    rw [← hg']
    exact hother
  have hafterRead : forall {g ctx}, s.recv r = Pc.inNext g ->
      (s.afterRead setup r g ctx).inFlight key = some read ->
      s.inFlight key = some read ∧ forall g, s.recv r = Pc.inNext g ->
        ¬ (setup.lookup r = true ∧ key = setup.key r ∧
          read = Read.mk r g) := by
    intro g ctx hpc hread
    rw [State.afterRead_inFlight, ← State.forget_inFlight] at hread
    exact hafter hpc hread
  cases h with
  | bypass hpc _ => exact hfetch (by simp [hpc]) hread
  | miss hpc _ _ => exact hfetch (by simp [hpc]) hread
  | released hpc _ => exact hfetch (by simp [hpc]) hread
  | bypassed hpc _ => exact Or.inl (hafterRead hpc hread)
  | verdictThrows hpc _ _ => exact Or.inl (hafterRead hpc hread)
  | refused hpc _ _ => exact Or.inl (hafterRead hpc hread)
  | raced hpc _ _ _ => exact Or.inl (hafterRead hpc hread)
  | store hpc _ _ _ => exact Or.inl (hafterRead hpc hread)
  | threw hpc _ => exact Or.inl (hafter hpc hread)
  | bypassThrew hpc _ => exact Or.inl (hafter hpc hread)
  | _ =>
      rename_i hpc
      refine Or.inl ⟨hread, ?_⟩
      intro g hg
      simp_all

theorem inFlight_move (h : Moves setup s e t)
    (hs : forall key read, s.inFlight key = some read ->
      s.recv read.owner = Pc.inNext read.generation ∧
        setup.lookup read.owner = true ∧ setup.key read.owner = key)
    {key : JsString} {read : Read} (hread : t.inFlight key = some read) :
    t.recv read.owner = Pc.inNext read.generation ∧
      setup.lookup read.owner = true ∧ setup.key read.owner = key := by
  cases h with
  | expire key => exact hs _ _ hread
  | purge hmove =>
      rcases purgeMove_same hmove with ⟨hrecv, hinFlight, _, _⟩
      rw [hinFlight] at hread
      rw [hrecv]
      exact hs _ _ hread
  | recv hmove =>
      rename_i r
      rcases recvMove_inFlight hmove hread with ⟨hold, hkept⟩ | hnew
      · rcases hs _ _ hold with ⟨hpc, hlookup, hkey⟩
        by_cases howner : read.owner = r
        · rw [howner] at hpc hlookup hkey
          refine absurd ⟨hlookup, hkey.symm, ?_⟩ (hkept _ hpc)
          rw [← howner]
        · rw [recvMove_recv_of_ne hmove howner]
          exact ⟨hpc, hlookup, hkey⟩
      · rcases hnew with ⟨hlookup, hkey, hread, hpc⟩
        rw [hread]
        exact ⟨hpc, hlookup, hkey.symm⟩

theorem settled_stable (h : Moves setup s e t)
    (hs : forall q, SettledAt setup q (s.recv q) (s.handled q) (s.settled q))
    {q : ReqId} (hq : s.settled q ≠ []) : t.settled q = s.settled q := by
  cases h with
  | expire key => rfl
  | purge hmove => rw [(purgeMove_same hmove).right.right.left]
  | recv hmove =>
      rename_i r
      by_cases hqr : q = r
      · subst hqr
        have hself := hs q
        cases hmove with
        | verdictThrows hpc _ _ =>
            rw [hpc] at hself
            exact absurd hself hq
        | refused hpc _ _ =>
            rw [hpc] at hself
            exact absurd hself hq
        | raced hpc _ _ _ =>
            rw [hpc] at hself
            exact absurd hself hq
        | store hpc _ _ _ =>
            rw [hpc] at hself
            exact absurd hself hq
        | threw hpc _ =>
            rw [hpc] at hself
            exact absurd hself hq
        | _ => simp [State.finish, State.providerSet, State.providerDelMany]
      · exact recvMove_settled_of_ne hmove hqr

theorem joinable_append {recorded : List RegExps} {read : Read} {joinedAt : Nat}
    (h : Joinable setup recorded r read joinedAt) (x : RegExps) :
    Joinable setup (recorded ++ [x]) r read joinedAt := by
  refine ⟨h.key, h.lookup, h.ordered, ?_, ?_⟩
  · rw [List.length_append]
    exact Nat.le_add_right_of_le h.past
  · rw [List.take_append_of_le_length h.past]
    exact h.current

theorem readAt_append {recorded : List RegExps}
    {settled : ReqId -> List Settlement} {pc : Pc}
    (h : ReadAt setup recorded settled r pc) (x : RegExps) :
    ReadAt setup (recorded ++ [x]) settled r pc := by
  unfold ReadAt at h ⊢
  split at h
  · rw [List.length_append]
    exact Nat.le_add_right_of_le h
  · rw [List.length_append]
    exact Nat.le_add_right_of_le h
  · rw [List.length_append]
    exact Nat.le_add_right_of_le h
  · exact joinable_append h x
  · exact ⟨joinable_append h.left x, h.right⟩
  · rw [List.length_append]
    exact ⟨h.left, Nat.le_add_right_of_le h.right⟩
  · trivial

theorem readAt_settled {recorded : List RegExps}
    {settled settled' : ReqId -> List Settlement} {pc : Pc}
    (h : ReadAt setup recorded settled r pc)
    (hsame : forall q, settled q ≠ [] -> settled' q = settled q) :
    ReadAt setup recorded settled' r pc := by
  unfold ReadAt at h ⊢
  split at h
  · exact h
  · exact h
  · exact h
  · exact h
  · rcases h with ⟨hjoin, shared, hsettled, hctx⟩
    refine ⟨hjoin, shared, ?_, hctx⟩
    rw [hsame _ (by simp [hsettled]), hsettled]
  · exact h
  · trivial

theorem readAt_finish {settled : ReqId -> List Settlement} {g : Nat}
    {ctx : Response} {s' : State} (hg : g ≤ s.journal.recorded.length)
    (hsame : s'.journal = s.journal) :
    ReadAt setup s.journal.recorded settled r
      ((s'.finish r g ctx).recv r) := by
  simp only [State.finish, State.setRecv_recv_self, ReadAt]
  rw [generation_eq, hsame]
  exact ⟨hg, Nat.le_refl _⟩

theorem readAt_recvMove (h : RecvMove setup s r e t) (hs : Consistent setup s) :
    ReadAt setup s.journal.recorded s.settled r (t.recv r) := by
  have hself := hs.reads r
  have hgen := generation_eq s
  have hfetch : ReadAt setup s.journal.recorded s.settled r
      ((s.fetch setup r).recv r) := by
    rw [State.fetch_recv_self]
    exact Nat.le_of_eq hgen
  cases h with
  | bypass _ _ => exact hfetch
  | miss _ _ _ => exact hfetch
  | released _ _ => exact hfetch
  | join hpc hmiss hpending hpurged =>
      rename_i etag reply pending
      rw [State.setRecv_recv_self]
      rcases hs.inFlight _ _ hpending with ⟨howner, hlookup, hkey⟩
      have hread := hs.reads pending.owner
      rw [howner] at hread
      have hle : pending.generation ≤ s.journal.recorded.length := hread
      refine ⟨hkey, hlookup, ?_, ?_, ?_⟩
      · rw [hgen]
        exact hle
      · exact Nat.le_of_eq hgen
      · rw [hgen, List.take_length]
        exact not_purged_of_purgedSince hle hpurged
  | shared hpc hsettled =>
      rename_i read joinedAt shared
      rw [State.setRecv_recv_self]
      rw [hpc] at hself
      refine ⟨hself, shared, ?_, rfl⟩
      rcases settledAt_shape (hs.settled read.owner) with h | h | ⟨_, _, _, h⟩
      · simp [h] at hsettled
      · simp [h] at hsettled
      · rw [h] at hsettled ⊢
        injection hsettled with hsettled
        rw [hsettled]
  | bypassed hpc _ =>
      rw [hpc] at hself
      exact readAt_finish hself (by simp)
  | refused hpc _ _ =>
      rw [hpc] at hself
      exact readAt_finish hself (by simp)
  | raced hpc _ _ _ =>
      rw [hpc] at hself
      exact readAt_finish hself (by simp)
  | kept hpc _ =>
      rw [hpc] at hself
      exact readAt_finish hself rfl
  | cleaned hpc =>
      rw [hpc] at hself
      exact readAt_finish hself rfl
  | _ => simp_all [ReadAt, State.providerSet, State.providerDelMany]

theorem numberedAs_append {recorded : List RegExps} {r x : RegExps} {g : Nat}
    (h : NumberedAs recorded r g) : NumberedAs (recorded ++ [x]) r g := by
  rcases h with ⟨n, hg, hn⟩
  refine ⟨n, hg, ?_⟩
  rw [List.getElem?_append_left (List.getElem?_eq_some_iff.mp hn).fst]
  exact hn

theorem purgeMove_purges (h : PurgeMove setup s p e t) {q : PurgeId}
    (hne : q ≠ p) : t.purges q = s.purges q := by
  cases h with
  | start _ =>
      unfold State.recordPurge
      simp only
      split
      · rw [State.setPurge_purges_of_ne _ _ _ hne]
      · rw [State.setPurge_purges_of_ne _ _ _ hne]
  | _ => simp [State.setPurge_purges_of_ne, hne, State.providerDelMany]

theorem purgeMove_generation (h : PurgeMove setup s p e t) {g : Nat}
    (hg : (t.purges p).generation? = some g) :
    ((s.purges p).generation? = some g ∧
        t.journal.recorded = s.journal.recorded) ∨
      (g = s.journal.recorded.length + 1 ∧
        t.journal.recorded = s.journal.recorded ++ [setup.purge p]) := by
  cases h with
  | start _ =>
      have hnew : (s.recordPurge setup p).generation =
          s.journal.recorded.length + 1 := by
        rw [generation_eq, recordPurge_recorded, List.length_append]
        rfl
      refine Or.inr ⟨?_, recordPurge_recorded⟩
      rw [← hnew]
      unfold State.recordPurge at hg ⊢
      simp only at hg ⊢
      split at hg
      · rename_i hreset
        rw [if_pos hreset]
        simpa [PurgePc.generation?, State.generation] using hg.symm
      · rename_i hreset
        rw [if_neg hreset]
        simpa [PurgePc.generation?, State.generation] using hg.symm
  | _ =>
      rename_i hpc
      simp_all [PurgePc.generation?, State.providerDelMany]

theorem purges_move (h : Moves setup s e t) (hs : Consistent setup s)
    {q : PurgeId} {g : Nat} (hg : (t.purges q).generation? = some g) :
    NumberedAs t.journal.recorded (setup.purge q) g := by
  cases h with
  | expire key => exact hs.purges q g hg
  | recv hmove =>
      rw [recvMove_purges hmove] at hg
      rw [recvMove_journal hmove]
      exact hs.purges q g hg
  | purge hmove =>
      rename_i p
      by_cases hq : q = p
      · subst hq
        rcases purgeMove_generation hmove hg with ⟨hold, hsame⟩ | ⟨hnew, hrec⟩
        · rw [hsame]
          exact hs.purges q g hold
        · rw [hrec]
          exact ⟨_, hnew, by simp⟩
      · rw [purgeMove_purges hmove hq] at hg
        have hold := hs.purges q g hg
        rcases purgeMove_recorded hmove with hsame | hrec
        · rw [hsame]
          exact hold
        · rw [hrec]
          exact numberedAs_append hold

theorem reads_move (h : Moves setup s e t) (hs : Consistent setup s)
    (q : ReqId) : ReadAt setup t.journal.recorded t.settled q (t.recv q) := by
  have hstable : forall o, s.settled o ≠ [] -> t.settled o = s.settled o :=
    fun o ho => settled_stable h hs.settled ho
  refine readAt_settled ?_ hstable
  cases h with
  | expire key => exact hs.reads q
  | purge hmove =>
      rw [(purgeMove_same hmove).left]
      rcases purgeMove_recorded hmove with hsame | hrec
      · rw [hsame]
        exact hs.reads q
      · rw [hrec]
        exact readAt_append (hs.reads q) _
  | recv hmove =>
      rename_i r
      rw [recvMove_journal hmove]
      by_cases hq : q = r
      · subst hq
        exact readAt_recvMove hmove hs
      · rw [recvMove_recv_of_ne hmove hq]
        exact hs.reads q

theorem consistent_step (hs : Consistent setup s)
    (h : step setup s e = some t) : Consistent setup t := by
  have hmoves := moves_of_step h
  constructor
  · exact settledAt_move hmoves hs.settled
  · intro key read hread
    exact inFlight_move hmoves hs.inFlight hread
  · exact reads_move hmoves hs
  · intro q g hg
    exact purges_move hmoves hs hg

theorem consistent_init : Consistent setup State.init := by
  constructor
  · intro r
    rfl
  · intro key read hread
    exact absurd hread (by simp [State.init])
  · intro r
    trivial
  · intro p g hg
    simp [State.init, PurgePc.generation?] at hg

def Reachable (setup : Setup) (ok : State -> Event -> Prop) (s : State) :
    Prop :=
  Transition.Reaches (step setup) ok State.init s

theorem consistent_reachable {ok : State -> Event -> Prop}
    (h : Reachable setup ok s) : Consistent setup s := by
  refine Transition.reaches_invariant consistent_init ?_ h
  intro a e b ha _ hnext
  exact consistent_step ha hnext

/-!
## Requests that take part in a run

A run only moves the requests it begins, so a condition on all requests can be
checked on these.
-/

def OnlyBegun (requests : List ReqId) (s : State) : Prop :=
  forall r, r ∉ requests -> s.recv r = Pc.idle

def BeginsOnly (requests : List ReqId) (events : List Event) : Prop :=
  forall r, Event.begin r ∈ events -> r ∈ requests

theorem onlyBegun_step {requests : List ReqId} {events : List Event}
    (hevents : BeginsOnly requests events) (hs : OnlyBegun requests s)
    (he : e ∈ events) (h : step setup s e = some t) :
    OnlyBegun requests t := by
  intro q hq
  cases moves_of_step h with
  | expire key => exact hs q hq
  | purge hmove =>
      rw [(purgeMove_same hmove).left]
      exact hs q hq
  | recv hmove =>
      rename_i r
      by_cases hqr : q = r
      · subst hqr
        have hidle := hs q hq
        cases hmove with
        | begin _ => exact absurd (hevents q he) hq
        | _ => simp_all
      · rw [recvMove_recv_of_ne hmove hqr]
        exact hs q hq

theorem onlyBegun_init (requests : List ReqId) :
    OnlyBegun requests State.init :=
  fun _ _ => rfl

theorem onlyBegun_lastChecked {requests : List ReqId} {events : List Event}
    {check : State -> Event -> Bool} (hevents : BeginsOnly requests events)
    (hs : OnlyBegun requests s) :
    OnlyBegun requests
      (Transition.lastChecked (step setup) check events s) :=
  Transition.lastChecked_known
    (fun _ _ _ ha he hstep => onlyBegun_step hevents ha he hstep) hs

theorem reaches_lastChecked {requests : List ReqId} {events : List Event}
    {ok : State -> Event -> Prop} {check : State -> Event -> Bool}
    (hevents : BeginsOnly requests events) (hs : OnlyBegun requests s)
    (hcheck : forall s e, OnlyBegun requests s -> check s e = true -> ok s e)
    (h : (Transition.execChecked (step setup) check events s).isSome = true) :
    Transition.Reaches (step setup) ok s
      (Transition.lastChecked (step setup) check events s) :=
  Transition.reaches_lastChecked
    (fun _ _ _ ha he hstep => onlyBegun_step hevents ha he hstep)
    hcheck hs h

theorem reachable_lastChecked {requests : List ReqId} {events : List Event}
    {ok : State -> Event -> Prop} {check : State -> Event -> Bool}
    (hevents : BeginsOnly requests events)
    (hcheck : forall s e, OnlyBegun requests s -> check s e = true -> ok s e)
    (h : (Transition.execChecked (step setup) check events
      State.init).isSome = true) :
    Reachable setup ok
      (Transition.lastChecked (step setup) check events State.init) :=
  reaches_lastChecked hevents (onlyBegun_init requests) hcheck h

end Recv
end RestCache
