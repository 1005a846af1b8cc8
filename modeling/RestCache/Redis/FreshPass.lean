import RestCache.Redis.PassSteps
import RestCache.Redis.PruneSchedule

/-!
# What awaiting `prune()` is worth

A call that resolves has had a pass of its own: one that began after the call,
went through the whole tracking set, and is over.  Two invariants show it.  The
first is about the bookkeeping, and says which passes can be in progress; the
second follows one pass through the set, for a caller that was there first.
-/

namespace RestCache
namespace Redis

namespace PruneSchedule

open Foundation.Transition

variable {ns : Name} {s t : Process}

theorem passClient_inj {p q : Nat} : passClient p = passClient q <-> p = q := by
  show (2 * p : Nat) = 2 * q <-> p = q
  omega

theorem passClient_ne_setClient (p k : Nat) : passClient p ≠ setClient k := by
  show (2 * p : Nat) ≠ 2 * k + 1
  omega

/-!
## Passes in progress

A pass is in progress until its `finally` has run, which is what
`state.running` says.
-/

def InProgress (s : Process) (pass : Nat) : Prop :=
  pass < s.starts.length ∧ pass ∉ s.settled

/-- Starts are listed newest first. -/
def Spaced (starts : List Start) : Prop :=
  starts.IsChain fun later earlier => later.caller ≠ Caller.prune ->
    earlier.time + PRUNE_INTERVAL ≤ later.time

structure Sched (s : Process) : Prop where
  unstarted : forall p, s.starts.length ≤ p ->
    s.redis.task (passClient p) = Task.idle
  settled : forall p, p ∈ s.settled ->
    p < s.starts.length ∧ s.redis.task (passClient p) = Task.idle
  running : forall p, InProgress s p <-> s.prune.running = some p
  newest : forall p, s.prune.running = some p -> p + 1 = s.starts.length
  lastStarted : s.prune.lastStarted = s.starts.head?.map Start.time
  clock : forall start, start ∈ s.starts.head? -> start.time ≤ s.now
  spaced : Spaced s.starts
  pruning : forall p, Pruning (s.redis.task (passClient p))
  writing : forall k, Writing (s.redis.task (setClient k))

theorem sched_init (db : Db) : Sched (Process.init db) := by
  constructor
  · intro p _
    rfl
  · intro p hp
    simp [Process.init] at hp
  · intro p
    simp [Process.init, InProgress, PruneState.fresh]
  · intro p hp
    simp [Process.init, PruneState.fresh] at hp
  · rfl
  · intro start hstart
    simp [Process.init] at hstart
  · exact List.IsChain.nil
  · intro p
    trivial
  · intro k
    trivial

theorem sched_of_eq (hinv : Sched s) (hredis : t.redis = s.redis)
    (hnow : t.now = s.now) (hprune : t.prune = s.prune)
    (hstarts : t.starts = s.starts) (hsettled : t.settled = s.settled) :
    Sched t := by
  cases s
  cases t
  simp only at hredis hnow hprune hstarts hsettled
  subst hredis hnow hprune hstarts hsettled
  exact { hinv with }

theorem inProgress_of_busy {p : Nat} (hinv : Sched s)
    (hbusy : s.redis.task (passClient p) ≠ Task.idle) : InProgress s p := by
  constructor
  · by_contra h
    exact hbusy (hinv.unstarted p (Nat.le_of_not_lt h))
  · intro h
    exact hbusy (hinv.settled p h).right

theorem sched_executed {redis : State} {written : Finset Name}
    (hinv : Sched s)
    (hpass : forall p, redis.task (passClient p) =
        s.redis.task (passClient p) ∨
      (s.redis.task (passClient p) ≠ Task.idle ∧
        Pruning (redis.task (passClient p))))
    (hwrite : forall k, Writing (redis.task (setClient k))) :
    Sched (s.executed redis written) := by
  have hidle : forall p, s.redis.task (passClient p) = Task.idle ->
      redis.task (passClient p) = Task.idle := by
    intro p hp
    rcases hpass p with h | ⟨h, _⟩
    · rw [h, hp]
    · exact absurd hp h
  constructor
  · intro p hp
    exact hidle p (hinv.unstarted p hp)
  · intro p hp
    rcases hinv.settled p hp with ⟨hlt, htask⟩
    exact ⟨hlt, hidle p htask⟩
  · exact hinv.running
  · exact hinv.newest
  · exact hinv.lastStarted
  · exact hinv.clock
  · exact hinv.spaced
  · intro p
    rcases hpass p with h | ⟨_, h⟩
    · show Pruning (redis.task (passClient p))
      rw [h]
      exact hinv.pruning p
    · exact h
  · exact hwrite

theorem startPrune_cases (s : Process) (caller : Caller)
    (interval drift : Nat) :
    (exists pass, s.prune.running = some pass ∧
      startPrune s caller interval drift = (s, some pass)) ∨
    (tooSoon s.now s.prune.lastStarted interval = true ∧
      startPrune s caller interval drift = (s, none)) ∨
    (s.prune.running = none ∧
      tooSoon s.now s.prune.lastStarted interval = false ∧
      startPrune s caller interval drift =
        (s.begin caller (s.now + drift), some s.starts.length)) := by
  unfold startPrune
  cases hrunning : s.prune.running with
  | some pass => exact Or.inl ⟨pass, rfl, rfl⟩
  | none =>
      cases hsoon : tooSoon s.now s.prune.lastStarted interval with
      | true => exact Or.inr (Or.inl ⟨rfl, rfl⟩)
      | false => exact Or.inr (Or.inr ⟨rfl, rfl, rfl⟩)

theorem sched_begin {caller : Caller} {now : Nat} (hinv : Sched s)
    (hrunning : s.prune.running = none)
    (hspaced : forall last, last ∈ s.starts.head? ->
      caller ≠ Caller.prune -> last.time + PRUNE_INTERVAL ≤ now) :
    Sched (s.begin caller now) := by
  have htask : forall p, p ≠ s.starts.length ->
      (s.begin caller now).redis.task (passClient p) =
        s.redis.task (passClient p) := by
    intro p hp
    have hne : passClient p ≠ passClient s.starts.length :=
      fun h => hp (passClient_inj.mp h)
    simp [Process.begin, State.command, hne]
  have hnew : s.starts.length ∉ s.settled := by
    intro h
    exact Nat.lt_irrefl _ (hinv.settled _ h).left
  constructor
  · intro p hp
    have hlen : s.starts.length + 1 ≤ p := by
      simpa [Process.begin] using hp
    rw [htask p (by omega)]
    exact hinv.unstarted p (by omega)
  · intro p hp
    rcases hinv.settled p hp with ⟨hlt, hidle⟩
    constructor
    · show p < s.starts.length + 1
      omega
    · rw [htask p (by omega)]
      exact hidle
  · -- Every earlier pass has settled, so only the new one is in progress.
    intro p
    have hold : ¬ InProgress s p := by
      intro h
      rw [hinv.running p, hrunning] at h
      cases h
    show (p < s.starts.length + 1 ∧ p ∉ s.settled) <->
      some s.starts.length = some p
    rw [Option.some.injEq]
    constructor
    · intro h
      by_contra hne
      exact hold ⟨by omega, h.right⟩
    · intro h
      subst h
      exact ⟨by omega, hnew⟩
  · intro p hp
    have heq : s.starts.length = p := Option.some.inj hp
    show p + 1 = s.starts.length + 1
    rw [heq]
  · rfl
  · intro start hstart
    cases hstart
    exact Nat.le_refl now
  · show Spaced (Start.mk now caller :: s.starts)
    unfold Spaced
    rw [List.isChain_cons]
    exact ⟨hspaced, hinv.spaced⟩
  · intro p
    by_cases hp : p = s.starts.length
    · rw [hp]
      simp [Process.begin, State.command, Pruning]
    · rw [htask p hp]
      exact hinv.pruning p
  · intro k
    have hne := (passClient_ne_setClient s.starts.length k).symm
    simpa [Process.begin, State.command, hne] using hinv.writing k

theorem sched_startPrune {caller : Caller} {interval drift : Nat}
    (hinv : Sched s)
    (hinterval : caller ≠ Caller.prune -> interval = PRUNE_INTERVAL) :
    Sched (startPrune s caller interval drift).1 := by
  rcases startPrune_cases s caller interval drift with
    ⟨pass, _, h⟩ | ⟨_, h⟩ | ⟨hrunning, hsoon, h⟩
  · rw [h]
    exact hinv
  · rw [h]
    exact hinv
  · rw [h]
    apply sched_begin hinv hrunning
    intro last hlast hcaller
    rw [hinv.lastStarted, Option.mem_def.mp hlast, hinterval hcaller] at hsoon
    have hclock := hinv.clock last hlast
    simp only [Option.map_some, tooSoon, decide_eq_false_iff_not] at hsoon
    omega

/-!
## What an event does to redis

Either one pass has issued one command, or a write or an expiry went by and
the passes are where they were.
-/

def PassMoves (s t : Process) (pass : Nat) (batch : List Name) (last : Bool) :
    Prop :=
  exists redis, t = (s.executed redis ∅).returned pass batch ∧
    PassStep s.redis redis (passClient pass) batch last ∧
    forall c, c ≠ passClient pass -> redis.task c = s.redis.task c

def PassesStay (s t : Process) : Prop :=
  exists redis written, t = s.executed redis written ∧
    (forall p, redis.task (passClient p) = s.redis.task (passClient p)) ∧
    (forall k, Writing (redis.task (setClient k))) ∧
    forall name, name ∈ redis.db.tracked ->
      name ∈ s.redis.db.tracked ∨ name ∈ written

theorem returned_nil (s : Process) (pass : Nat) : s.returned pass [] = s := by
  unfold Process.returned
  simp

theorem passMoves_sscan {pass : Nat} {batch : List Name} {last : Bool}
    (h : step ns s (Event.sscan pass batch last) = some t) :
    PassMoves s t pass batch last := by
  simp only [step, command, Option.map_map, Option.map_eq_some_iff] at h
  rcases h with ⟨redis, hredis, ht⟩
  refine ⟨redis, ht.symm, passStep_execSscan hredis, ?_⟩
  intro c hc
  exact step_task_of_ne (by simp [Redis.Event.client, Ne.symm hc]) hredis

theorem passMoves_exists {pass : Nat} {name : Name}
    (h : step ns s (Event.exists pass name) = some t) :
    PassMoves s t pass [] false := by
  simp only [step, command, Option.map_eq_some_iff] at h
  rcases h with ⟨redis, hredis, ht⟩
  refine ⟨redis, ?_, passStep_execExists hredis, ?_⟩
  · rw [returned_nil, ← ht]
    rfl
  · intro c hc
    exact step_task_of_ne (by simp [Redis.Event.client, Ne.symm hc]) hredis

theorem passMoves_exec {pass : Nat} (hinv : Sched s)
    (h : step ns s (Event.exec pass) = some t) :
    PassMoves s t pass [] false := by
  have hpruning := hinv.pruning pass
  simp only [step, command, Option.map_eq_some_iff] at h
  rcases h with ⟨redis, hredis, ht⟩
  have hnone : saddOf s.redis (Redis.Event.exec (passClient pass)) = ∅ := by
    unfold saddOf
    cases htask : s.redis.task (passClient pass) with
    | tracking name => simp [htask, Pruning] at hpruning
    | _ => simp [htask]
  rw [hnone] at ht
  refine ⟨redis, ?_, passStep_exec hpruning hredis, ?_⟩
  · rw [returned_nil, ht]
  · intro c hc
    exact step_task_of_ne (by simp [Redis.Event.client, Ne.symm hc]) hredis

theorem passesStay_set {k : Nat} {key : Name} (hinv : Sched s)
    (h : command ns s (Redis.Event.set (setClient k) key) = some t) :
    PassesStay s t := by
  simp only [command, Option.map_eq_some_iff] at h
  rcases h with ⟨redis, hredis, ht⟩
  have htask : forall c, c ≠ setClient k -> redis.task c = s.redis.task c := by
    intro c hc
    exact step_task_of_ne (by simp [Redis.Event.client, Ne.symm hc]) hredis
  simp only [Redis.step, call] at hredis
  split at hredis
  · cases hredis
    refine ⟨_, _, ht.symm, ?_, ?_, ?_⟩
    · intro p
      exact htask _ (passClient_ne_setClient p k)
    · intro j
      by_cases hj : setClient j = setClient k
      · rw [hj]
        simp [State.command, Writing]
      · rw [htask _ hj]
        exact hinv.writing j
    · intro name hname
      exact Or.inl hname
  · cases hredis

theorem passesStay_write {k : Nat} (hinv : Sched s)
    (h : command ns s (Redis.Event.exec (setClient k)) = some t) :
    PassesStay s t := by
  simp only [command, Option.map_eq_some_iff] at h
  rcases h with ⟨redis, hredis, ht⟩
  have htask : forall c, c ≠ setClient k -> redis.task c = s.redis.task c := by
    intro c hc
    exact step_task_of_ne (by simp [Redis.Event.client, Ne.symm hc]) hredis
  have hsame : forall p,
      redis.task (passClient p) = s.redis.task (passClient p) := by
    intro p
    exact htask _ (passClient_ne_setClient p k)
  have hwriting : Writing (redis.task (setClient k)) ->
      forall j, Writing (redis.task (setClient j)) := by
    intro hk j
    by_cases hj : setClient j = setClient k
    · rw [hj]
      exact hk
    · rw [htask _ hj]
      exact hinv.writing j
  rcases exec_writing (hinv.writing k) hredis with
    ⟨name, hk, heq⟩ | ⟨name, hk, heq⟩
  · subst heq
    refine ⟨_, _, ht.symm, hsame, hwriting ?_, ?_⟩
    · simp [State.command, Writing]
    · intro other hother
      exact Or.inl hother
  · subst heq
    refine ⟨_, _, ht.symm, hsame, hwriting ?_, ?_⟩
    · simp [State.command, Writing]
    · intro other hother
      simpa [saddOf, hk, State.command, Db.sadd, or_comm] using hother

theorem passesStay_expire {name : Name} (hinv : Sched s)
    (h : step ns s (Event.expire name) = some t) : PassesStay s t := by
  simp only [step, command, Redis.step, Option.map_some,
    Option.some.injEq] at h
  refine ⟨_, _, h.symm, fun _ => rfl, hinv.writing, ?_⟩
  intro other hother
  exact Or.inl hother

theorem sched_passMoves {pass : Nat} {batch : List Name} {last : Bool}
    (hinv : Sched s) (h : PassMoves s t pass batch last) : Sched t := by
  rcases h with ⟨redis, ht, hpass, hothers⟩
  subst ht
  have hexecuted : Sched (s.executed redis ∅) := by
    apply sched_executed hinv
    · intro p
      by_cases hp : passClient p = passClient pass
      · rw [hp]
        exact Or.inr ⟨hpass.busy, hpass.pruning⟩
      · exact Or.inl (hothers _ hp)
    · intro k
      rw [hothers _ (passClient_ne_setClient pass k).symm]
      exact hinv.writing k
  exact sched_of_eq hexecuted rfl rfl rfl rfl rfl

theorem sched_passesStay (hinv : Sched s) (h : PassesStay s t) :
    Sched t := by
  rcases h with ⟨redis, written, ht, hsame, hwriting, _⟩
  subst ht
  apply sched_executed hinv _ hwriting
  intro p
  exact Or.inl (hsame p)

theorem sched_settles {pass : Nat} (hinv : Sched s)
    (hlt : pass < s.starts.length) (hnew : pass ∉ s.settled)
    (hidle : s.redis.task (passClient pass) = Task.idle) :
    Sched { s with
      prune := { s.prune with running := none }
      settled := insert pass s.settled } := by
  have hrunning := (hinv.running pass).mp ⟨hlt, hnew⟩
  constructor
  · exact hinv.unstarted
  · intro p hp
    rcases Finset.mem_insert.mp hp with heq | hold
    · rw [heq]
      exact ⟨hlt, hidle⟩
    · exact hinv.settled p hold
  · intro p
    constructor
    · intro h
      have hne : p ≠ pass ∧ p ∉ s.settled := by
        simpa [not_or] using h.right
      have hother := (hinv.running p).mp ⟨h.left, hne.right⟩
      rw [hrunning] at hother
      exact absurd (Option.some.inj hother).symm hne.left
    · intro h
      cases h
  · intro p hp
    cases hp
  · exact hinv.lastStarted
  · exact hinv.clock
  · exact hinv.spaced
  · exact hinv.pruning
  · exact hinv.writing

theorem sched_step {e : Event} (hinv : Sched s) (h : step ns s e = some t) :
    Sched t := by
  cases e with
  | sscan pass batch last => exact sched_passMoves hinv (passMoves_sscan h)
  | «exists» pass name => exact sched_passMoves hinv (passMoves_exists h)
  | exec pass => exact sched_passMoves hinv (passMoves_exec hinv h)
  | expire name => exact sched_passesStay hinv (passesStay_expire hinv h)
  | write k =>
      simp only [step] at h
      split at h
      · exact sched_passesStay hinv (passesStay_write hinv h)
      · cases h
  | set k key =>
      simp only [step] at h
      split at h
      · rcases Option.map_eq_some_iff.mp h with ⟨u, hu, ht⟩
        subst ht
        exact sched_of_eq (sched_passesStay hinv (passesStay_set hinv hu))
          rfl rfl rfl rfl rfl
      · cases h
  | prune k =>
      simp only [step] at h
      split at h <;> cases h
      exact sched_of_eq hinv rfl rfl rfl rfl rfl
  | pruneResumes k drift =>
      simp only [step] at h
      split at h
      · split at h <;> cases h
        exact sched_of_eq (sched_startPrune hinv (by simp))
          rfl rfl rfl rfl rfl
      · cases h
  | pruneResolves k =>
      simp only [step] at h
      split at h
      · split at h <;> cases h
        exact sched_of_eq hinv rfl rfl rfl rfl rfl
      · cases h
  | keys k =>
      simp only [step] at h
      split at h <;> cases h
      exact sched_of_eq hinv rfl rfl rfl rfl rfl
  | smembers k =>
      simp only [step] at h
      split at h <;> cases h
      exact sched_of_eq hinv rfl rfl rfl rfl rfl
  | keysResolves k drift =>
      simp only [step] at h
      split at h <;> cases h
      exact sched_of_eq (sched_startPrune hinv (fun _ => rfl))
        rfl rfl rfl rfl rfl
  | setResolves k drift =>
      simp only [step] at h
      split at h
      · split at h <;> cases h
        exact sched_of_eq (sched_startPrune hinv (fun _ => rfl))
          rfl rfl rfl rfl rfl
      · cases h
  | passSettles pass =>
      simp only [step] at h
      split at h
      · rename_i hdone
        cases h
        exact sched_settles hinv hdone.left hdone.right.left
          hdone.right.right
      · cases h
  | tick elapsed =>
      cases h
      exact { hinv with
        clock := fun start hstart =>
          Nat.le_trans (hinv.clock start hstart) (Nat.le_add_right _ _) }

theorem sched_reaches {db : Db}
    (h : Reaches (step ns) ScansAll (Process.init db) s) : Sched s := by
  apply reaches_invariant _ _ h
  · exact sched_init db
  · intro a e b hinv _ hstep
    exact sched_step hinv hstep

/-!
## A pass of one's own

What a `prune()` call knows of the passes that began after it.  Of the names
without an entry since the call, such a pass puts none back; those that are
still members are the ones its SSCAN has yet to return, or that it has yet to
untrack.
-/

/-- A pass, as a caller that was there before it sees it. -/
structure Sweeping (s : Process) (k pass : Nat) : Prop where
  putBack : forall name, name ∈ putBack (s.redis.task (passClient pass)) ->
    name ∈ s.live k
  due : forall name, name ∈ s.redis.db.tracked -> name ∉ s.live k ->
    name ∈ s.unseen pass ∨ name ∈ ahead (s.redis.task (passClient pass))

/-- What a call waits for began after it, but for a pass it found running. -/
def Awaits (s : Process) (k : Nat) : PruneCall -> Prop
  | PruneCall.notCalled => True
  | PruneCall.awaitingRunning promise =>
      forall p, InProgress s p -> promise = some p ∨ s.calledAt k ≤ p
  | PruneCall.awaitingOwn promise =>
      exists p, promise = some p ∧ s.calledAt k ≤ p ∧ p < s.starts.length
  | PruneCall.resolved promise =>
      exists p, promise = some p ∧ s.calledAt k ≤ p ∧ p ∈ s.settled

structure Fresh (s : Process) : Prop where
  ended : forall p, p < s.starts.length ->
    Ending (s.redis.task (passClient p)) -> s.unseen p = ∅
  awaits : forall k, Awaits s k (s.pruneCall k)
  called : forall k, s.calledAt k ≤ s.starts.length
  entries : forall k, s.pruneCall k ≠ PruneCall.notCalled ->
    s.redis.db.entries ⊆ s.live k
  sweeping : forall k p, s.pruneCall k ≠ PruneCall.notCalled ->
    s.calledAt k ≤ p -> p < s.starts.length -> Sweeping s k p

theorem fresh_init (db : Db) : Fresh (Process.init db) := by
  constructor
  · intro p hp
    simp [Process.init] at hp
  · intro k
    trivial
  · intro k
    exact Nat.le_refl 0
  · intro k hk
    exact absurd rfl hk
  · intro k p hk
    exact absurd rfl hk

theorem fresh_of_eq (hinv : Fresh s) (hredis : t.redis = s.redis)
    (hstarts : t.starts = s.starts) (hsettled : t.settled = s.settled)
    (hprune : t.pruneCall = s.pruneCall) (hunseen : t.unseen = s.unseen)
    (hcalledAt : t.calledAt = s.calledAt) (hlive : t.live = s.live) :
    Fresh t := by
  have hprogress : forall p, InProgress t p -> InProgress s p := by
    intro p hp
    unfold InProgress at hp ⊢
    rw [← hstarts, ← hsettled]
    exact hp
  constructor
  · intro p
    rw [hstarts, hredis, hunseen]
    exact hinv.ended p
  · intro k
    have hk := hinv.awaits k
    rw [hprune]
    cases hcall : s.pruneCall k with
    | notCalled => trivial
    | awaitingRunning promise =>
        rw [hcall] at hk
        intro p hp
        rw [hcalledAt]
        exact hk p (hprogress p hp)
    | awaitingOwn promise =>
        rw [hcall] at hk
        unfold Awaits
        rw [hcalledAt, hstarts]
        exact hk
    | resolved promise =>
        rw [hcall] at hk
        unfold Awaits
        rw [hcalledAt, hsettled]
        exact hk
  · intro k
    rw [hcalledAt, hstarts]
    exact hinv.called k
  · intro k
    rw [hprune, hredis, hlive]
    exact hinv.entries k
  · intro k p hk hle hlt
    rw [hprune] at hk
    rw [hcalledAt] at hle
    rw [hstarts] at hlt
    have hsweeping := hinv.sweeping k p hk hle hlt
    constructor
    · rw [hredis, hlive]
      exact hsweeping.putBack
    · rw [hredis, hlive, hunseen]
      exact hsweeping.due

theorem awaits_mono {k : Nat} {call : PruneCall}
    (hcalledAt : t.calledAt k = s.calledAt k)
    (hprogress : forall p, InProgress t p ->
      InProgress s p ∨ s.calledAt k ≤ p)
    (hstarts : s.starts.length ≤ t.starts.length)
    (hsettled : s.settled ⊆ t.settled)
    (h : Awaits s k call) : Awaits t k call := by
  cases call with
  | notCalled => trivial
  | awaitingRunning promise =>
      intro p hp
      rw [hcalledAt]
      rcases hprogress p hp with hold | hle
      · exact h p hold
      · exact Or.inr hle
  | awaitingOwn promise =>
      rcases h with ⟨p, hpromise, hle, hlt⟩
      refine ⟨p, hpromise, ?_, Nat.lt_of_lt_of_le hlt hstarts⟩
      rw [hcalledAt]
      exact hle
  | resolved promise =>
      rcases h with ⟨p, hpromise, hle, hp⟩
      refine ⟨p, hpromise, ?_, hsettled hp⟩
      rw [hcalledAt]
      exact hle

theorem live_executed {redis : State} {written : Finset Name} {k : Nat}
    {name : Name} (h : name ∉ (s.executed redis written).live k) :
    name ∉ s.live k ∧ name ∉ redis.db.entries ∧ name ∉ written := by
  simpa [Process.executed, not_or, and_assoc] using h

theorem fresh_passesStay (hinv : Fresh s) (h : PassesStay s t) : Fresh t := by
  rcases h with ⟨redis, written, ht, hsame, _, htracked⟩
  subst ht
  constructor
  · intro p hlt hend
    have hold := hinv.ended p hlt (hsame p ▸ hend)
    simp [Process.executed, hold]
  · intro k
    exact awaits_mono rfl (fun _ => Or.inl) (Nat.le_refl _)
      (Finset.Subset.refl _) (hinv.awaits k)
  · exact hinv.called
  · intro k _ name hname
    simp only [Process.executed, Finset.mem_union]
    exact Or.inl (Or.inr hname)
  · intro k p hk hle hlt
    have hsweeping := hinv.sweeping k p hk hle hlt
    constructor
    · intro name hname
      simp only [Process.executed, Finset.mem_union]
      exact Or.inl (Or.inl (hsweeping.putBack name (hsame p ▸ hname)))
    · intro name hname hlive
      rcases live_executed hlive with ⟨hold, _, hwritten⟩
      have hbefore := (htracked name hname).resolve_right hwritten
      rcases hsweeping.due name hbefore hold with h | h
      · left
        simp only [Process.executed, Finset.mem_inter]
        exact ⟨h, hname⟩
      · right
        show name ∈ ahead (redis.task (passClient p))
        rw [hsame p]
        exact h

/--
The pass in progress is the newest.  So a name it puts back is live for every
caller that has a pass of its own to speak of.
-/
theorem fresh_passMoves {pass : Nat} {batch : List Name} {last : Bool}
    (hsched : Sched s) (hinv : Fresh s)
    (hscan : last = true -> s.unseen pass ⊆ batch.toFinset)
    (h : PassMoves s t pass batch last) : Fresh t := by
  rcases h with ⟨redis, ht, hpass, hothers⟩
  have hnewest : forall p, p < s.starts.length -> p ≤ pass := by
    have hprogress := inProgress_of_busy hsched hpass.busy
    have hlength := hsched.newest pass ((hsched.running pass).mp hprogress)
    omega
  have hstarted : pass < s.starts.length :=
    (inProgress_of_busy hsched hpass.busy).left
  have htask : forall p, p ≠ pass ->
      redis.task (passClient p) = s.redis.task (passClient p) := by
    intro p hp
    exact hothers _ (fun h => hp (passClient_inj.mp h))
  have hunseen : t.unseen pass =
      (s.unseen pass ∩ redis.db.tracked) \ batch.toFinset := by
    simp [ht, Process.returned, Process.executed]
  have hunseenOther : forall p, p ≠ pass ->
      t.unseen p = s.unseen p ∩ redis.db.tracked := by
    intro p hp
    simp [ht, Process.returned, Process.executed, hp]
  subst ht
  constructor
  · intro p hlt hend
    by_cases hp : p = pass
    · subst hp
      rw [hunseen]
      rcases hpass.ending hend with hbefore | hlast
      · simp [hinv.ended p hlt hbefore]
      · rw [Finset.sdiff_eq_empty_iff_subset]
        exact Finset.inter_subset_left.trans (hscan hlast)
    · rw [hunseenOther p hp]
      have hbefore : Ending (s.redis.task (passClient p)) := htask p hp ▸ hend
      simp [hinv.ended p hlt hbefore]
  · intro k
    exact awaits_mono rfl (fun _ => Or.inl) (Nat.le_refl _)
      (Finset.Subset.refl _) (hinv.awaits k)
  · exact hinv.called
  · intro k _ name hname
    simp only [Process.returned, Process.executed, Finset.mem_union]
    exact Or.inl (Or.inr hname)
  · intro k p hk hle hlt
    have hsweeping := hinv.sweeping k p hk hle hlt
    have hmover : Sweeping s k pass :=
      hinv.sweeping k pass hk (Nat.le_trans hle (hnewest p hlt)) hstarted
    have hentries := hinv.entries k hk
    have hlive : forall name, name ∈ s.live k ->
        name ∈ (s.executed redis ∅).live k := by
      intro name hname
      simp only [Process.executed, Finset.mem_union]
      exact Or.inl (Or.inl hname)
    constructor
    · intro name hname
      apply hlive
      by_cases hp : p = pass
      · subst hp
        rcases hpass.putBack name hname with hold | hfound
        · exact hsweeping.putBack name hold
        · exact hentries hfound
      · exact hsweeping.putBack name (htask p hp ▸ hname)
    · intro name hname hgone
      have hdead : name ∉ s.live k := fun h => hgone (hlive name h)
      have hbefore : name ∈ s.redis.db.tracked := by
        rcases hpass.tracked name hname with hold | hback
        · exact hold
        · exact absurd (hmover.putBack name hback) hdead
      by_cases hp : p = pass
      · subst hp
        have hahead : name ∈ batch ∨
            name ∈ ahead (s.redis.task (passClient p)) ->
            name ∈ ahead (redis.task (passClient p)) := by
          intro h
          rcases hpass.ahead name h hname with hnext | hfound
          · exact hnext
          · exact absurd (hentries hfound) hdead
        rcases hsweeping.due name hbefore hdead with h | h
        · by_cases hbatch : name ∈ batch
          · exact Or.inr (hahead (Or.inl hbatch))
          · left
            rw [hunseen, Finset.mem_sdiff, Finset.mem_inter, List.mem_toFinset]
            exact ⟨⟨h, hname⟩, hbatch⟩
        · exact Or.inr (hahead (Or.inr h))
      · rcases hsweeping.due name hbefore hdead with h | h
        · left
          rw [hunseenOther p hp, Finset.mem_inter]
          exact ⟨h, hname⟩
        · right
          show name ∈ ahead (redis.task (passClient p))
          rw [htask p hp]
          exact h

theorem fresh_begin {caller : Caller} {now : Nat} (hinv : Fresh s) :
    Fresh (s.begin caller now) := by
  have htask : forall p, p ≠ s.starts.length ->
      (s.begin caller now).redis.task (passClient p) =
        s.redis.task (passClient p) := by
    intro p hp
    have hne : passClient p ≠ passClient s.starts.length :=
      fun h => hp (passClient_inj.mp h)
    simp [Process.begin, State.command, hne]
  have hnew : (s.begin caller now).redis.task
      (passClient s.starts.length) = Task.scanning := by
    simp [Process.begin, State.command]
  have hunseen : forall p, p ≠ s.starts.length ->
      (s.begin caller now).unseen p = s.unseen p := by
    intro p hp
    simp [Process.begin, hp]
  have hlength : (s.begin caller now).starts.length =
      s.starts.length + 1 := rfl
  constructor
  · intro p hlt hend
    by_cases hp : p = s.starts.length
    · rw [hp, hnew] at hend
      exact hend.elim
    · rw [htask p hp] at hend
      rw [hunseen p hp]
      exact hinv.ended p (by omega) hend
  · intro k
    apply awaits_mono _ _ _ _ (hinv.awaits k)
    · rfl
    · intro p hp
      by_cases hold : p < s.starts.length
      · exact Or.inl ⟨hold, hp.right⟩
      · right
        have hle := hinv.called k
        omega
    · omega
    · exact Finset.Subset.refl _
  · intro k
    have hle := hinv.called k
    show s.calledAt k ≤ s.starts.length + 1
    omega
  · exact hinv.entries
  · intro k p hk hle hlt
    by_cases hp : p = s.starts.length
    · subst hp
      constructor
      · intro name hname
        rw [hnew] at hname
        cases hname
      · intro name hname _
        left
        rw [show (s.begin caller now).unseen s.starts.length =
          s.redis.db.tracked by simp [Process.begin]]
        exact hname
    · have hsweeping := hinv.sweeping k p hk hle (by omega)
      constructor
      · intro name hname
        rw [htask p hp] at hname
        exact hsweeping.putBack name hname
      · intro name hname hdead
        rw [htask p hp, hunseen p hp]
        exact hsweeping.due name hname hdead

theorem fresh_startPrune {caller : Caller} {interval drift : Nat}
    (hinv : Fresh s) : Fresh (startPrune s caller interval drift).1 := by
  rcases startPrune_cases s caller interval drift with
    ⟨pass, _, h⟩ | ⟨_, h⟩ | ⟨_, _, h⟩
  · rw [h]
    exact hinv
  · rw [h]
    exact hinv
  · rw [h]
    exact fresh_begin hinv

theorem fresh_settles {pass : Nat} (hinv : Fresh s) :
    Fresh { s with
      prune := { s.prune with running := none }
      settled := insert pass s.settled } := by
  constructor
  · exact hinv.ended
  · intro k
    apply awaits_mono _ _ _ _ (hinv.awaits k)
    · rfl
    · intro p hp
      exact Or.inl ⟨hp.left, fun h => hp.right (Finset.mem_insert_of_mem h)⟩
    · exact Nat.le_refl _
    · exact Finset.subset_insert _ _
  · exact hinv.called
  · exact hinv.entries
  · intro k p hk hle hlt
    have hsweeping := hinv.sweeping k p hk hle hlt
    exact ⟨hsweeping.putBack, hsweeping.due⟩

theorem fresh_setPrune {k : Nat} {call : PruneCall} (hinv : Fresh s)
    (hcalled : s.pruneCall k ≠ PruneCall.notCalled)
    (hawaits : Awaits s k call) : Fresh (s.setPrune k call) := by
  have hbefore : forall j,
      (s.setPrune k call).pruneCall j ≠ PruneCall.notCalled ->
      s.pruneCall j ≠ PruneCall.notCalled := by
    intro j hj
    by_cases hjk : j = k
    · rw [hjk]
      exact hcalled
    · simpa [Process.setPrune, hjk] using hj
  have hmono : forall j other, Awaits s j other ->
      Awaits (s.setPrune k call) j other := by
    intro j other h
    exact awaits_mono rfl (fun _ => Or.inl) (Nat.le_refl _)
      (Finset.Subset.refl _) h
  constructor
  · exact hinv.ended
  · intro j
    apply hmono
    by_cases hjk : j = k
    · subst hjk
      simpa [Process.setPrune] using hawaits
    · simpa [Process.setPrune, hjk] using hinv.awaits j
  · exact hinv.called
  · intro j hj
    exact hinv.entries j (hbefore j hj)
  · intro j p hj hle hlt
    have hsweeping := hinv.sweeping j p (hbefore j hj) hle hlt
    exact ⟨hsweeping.putBack, hsweeping.due⟩

theorem fresh_prune {k : Nat} (hsched : Sched s) (hinv : Fresh s)
    (h : step ns s (Event.prune k) = some t) : Fresh t := by
  simp only [step] at h
  split at h
  · cases h
    constructor
    · exact hinv.ended
    · intro j
      by_cases hjk : j = k
      · subst hjk
        simp only [Function.update_self]
        intro p hp
        exact Or.inl ((hsched.running p).mp hp)
      · simp only [ne_eq, hjk, not_false_eq_true, Function.update_of_ne]
        apply awaits_mono _ _ _ _ (hinv.awaits j)
        · simp [hjk]
        · intro p hp
          exact Or.inl hp
        · exact Nat.le_refl _
        · exact Finset.Subset.refl _
    · intro j
      by_cases hjk : j = k
      · simp [hjk]
      · simpa [hjk] using hinv.called j
    · intro j hj
      by_cases hjk : j = k
      · simp [hjk]
      · simp only [ne_eq, hjk, not_false_eq_true, Function.update_of_ne] at hj ⊢
        exact hinv.entries j hj
    · intro j p hj hle hlt
      by_cases hjk : j = k
      · -- No pass has begun since the call.
        subst hjk
        simp only [Function.update_self] at hle
        exact absurd hlt (Nat.not_lt_of_le hle)
      · simp only [ne_eq, hjk, not_false_eq_true, Function.update_of_ne]
          at hj hle
        have hsweeping := hinv.sweeping j p hj hle hlt
        constructor
        · simpa [hjk] using hsweeping.putBack
        · simpa [hjk] using hsweeping.due
  · cases h

/--
Once the pass it found running has settled, whatever a call finds running began
after it; and with an interval of 0 and a clock that does not go back, it never
finds that it is too soon.
-/
theorem awaits_startPrune {k drift : Nat} {promise : Option Nat}
    (hsched : Sched s) (hinv : Fresh s)
    (hcall : s.pruneCall k = PruneCall.awaitingRunning promise)
    (hsettled : s.Settled promise) :
    Awaits (startPrune s Caller.prune 0 drift).1 k
      (PruneCall.awaitingOwn (startPrune s Caller.prune 0 drift).2) := by
  have hawaits := hinv.awaits k
  rw [hcall] at hawaits
  rcases startPrune_cases s Caller.prune 0 drift with
    ⟨pass, hrunning, h⟩ | ⟨hsoon, h⟩ | ⟨_, _, h⟩
  · rw [h]
    have hprogress := (hsched.running pass).mpr hrunning
    refine ⟨pass, rfl, ?_, hprogress.left⟩
    rcases hawaits pass hprogress with heq | hle
    · rw [heq] at hsettled
      exact absurd hsettled hprogress.right
    · exact hle
  · rw [hsched.lastStarted] at hsoon
    cases hhead : s.starts.head? with
    | none => simp [hhead, tooSoon] at hsoon
    | some start =>
        have hclock := hsched.clock start hhead
        simp only [hhead, Option.map_some, tooSoon, decide_eq_true_eq] at hsoon
        omega
  · rw [h]
    exact ⟨s.starts.length, rfl, hinv.called k, Nat.lt_succ_self _⟩

theorem startPrune_pruneCall (s : Process) (caller : Caller)
    (interval drift : Nat) :
    (startPrune s caller interval drift).1.pruneCall = s.pruneCall := by
  rcases startPrune_cases s caller interval drift with
    ⟨_, _, h⟩ | ⟨_, h⟩ | ⟨_, _, h⟩ <;> rw [h]
  rfl

theorem fresh_step {e : Event} (hsched : Sched s) (hinv : Fresh s)
    (hok : ScansAll s e) (h : step ns s e = some t) : Fresh t := by
  cases e with
  | sscan pass batch last =>
      apply fresh_passMoves hsched hinv _ (passMoves_sscan h)
      intro hlast
      subst hlast
      exact hok
  | «exists» pass name =>
      exact fresh_passMoves hsched hinv (by simp) (passMoves_exists h)
  | exec pass =>
      exact fresh_passMoves hsched hinv (by simp) (passMoves_exec hsched h)
  | expire name => exact fresh_passesStay hinv (passesStay_expire hsched h)
  | write k =>
      simp only [step] at h
      split at h
      · exact fresh_passesStay hinv (passesStay_write hsched h)
      · cases h
  | set k key =>
      simp only [step] at h
      split at h
      · rcases Option.map_eq_some_iff.mp h with ⟨u, hu, ht⟩
        subst ht
        exact fresh_of_eq (fresh_passesStay hinv (passesStay_set hsched hu))
          rfl rfl rfl rfl rfl rfl rfl
      · cases h
  | prune k => exact fresh_prune hsched hinv h
  | pruneResumes k drift =>
      simp only [step] at h
      split at h
      · rename_i promise hcall
        split at h
        · rename_i hsettled
          cases h
          apply fresh_setPrune (fresh_startPrune hinv)
          · rw [startPrune_pruneCall, hcall]
            simp
          · exact awaits_startPrune hsched hinv hcall hsettled
        · cases h
      · cases h
  | pruneResolves k =>
      simp only [step] at h
      split at h
      · rename_i promise hcall
        split at h
        · rename_i hsettled
          cases h
          apply fresh_setPrune hinv (by simp [hcall])
          have hawaits := hinv.awaits k
          rw [hcall] at hawaits
          rcases hawaits with ⟨p, hpromise, hle, _⟩
          subst hpromise
          exact ⟨p, rfl, hle, hsettled⟩
        · cases h
      · cases h
  | keys k =>
      simp only [step] at h
      split at h <;> cases h
      exact fresh_of_eq hinv rfl rfl rfl rfl rfl rfl rfl
  | smembers k =>
      simp only [step] at h
      split at h <;> cases h
      exact fresh_of_eq hinv rfl rfl rfl rfl rfl rfl rfl
  | keysResolves k drift =>
      simp only [step] at h
      split at h <;> cases h
      exact fresh_of_eq (fresh_startPrune hinv) rfl rfl rfl rfl rfl rfl rfl
  | setResolves k drift =>
      simp only [step] at h
      split at h
      · split at h <;> cases h
        exact fresh_of_eq (fresh_startPrune hinv) rfl rfl rfl rfl rfl rfl rfl
      · cases h
  | passSettles pass =>
      simp only [step] at h
      split at h <;> cases h
      exact fresh_settles hinv
  | tick elapsed =>
      cases h
      exact fresh_of_eq hinv rfl rfl rfl rfl rfl rfl rfl

theorem fresh_reaches {db : Db}
    (h : Reaches (step ns) ScansAll (Process.init db) s) : Fresh s := by
  apply @reaches_invariant_along _ _ _ _ Fresh Sched _ _ _ _ _ h
  · exact fresh_init db
  · intro a ha
    exact sched_reaches ha
  · intro a e b hsched hinv hok hstep
    exact fresh_step hsched hinv hok hstep

/--
Passes do not overlap, background ones keep their distance, and a `prune()`
that has resolved leaves no member without an entry behind, but for those
written or alive since it was called.
-/
theorem prune_awaits_fresh_pass {db : Db}
    (h : Reaches (step ns) ScansAll (Process.init db) s) :
    (forall p q, InProgress s p -> InProgress s q -> p = q) ∧
      Spaced s.starts ∧
      forall k promise, s.pruneCall k = PruneCall.resolved promise ->
        exists p, promise = some p ∧ s.calledAt k ≤ p ∧ p ∈ s.settled ∧
          s.unseen p = ∅ ∧
          forall name, name ∉ s.live k -> name ∉ s.redis.db.tracked := by
  have hsched := sched_reaches h
  have hinv := fresh_reaches h
  refine ⟨?_, hsched.spaced, ?_⟩
  · intro p q hp hq
    rw [hsched.running] at hp hq
    rw [hp] at hq
    exact Option.some.inj hq
  · intro k promise hcall
    have hawaits := hinv.awaits k
    rw [hcall] at hawaits
    rcases hawaits with ⟨p, hpromise, hle, hp⟩
    rcases hsched.settled p hp with ⟨hlt, hidle⟩
    have hunseen : s.unseen p = ∅ := by
      apply hinv.ended p hlt
      rw [hidle]
      trivial
    refine ⟨p, hpromise, hle, hp, hunseen, ?_⟩
    intro name hdead htracked
    have hsweeping := hinv.sweeping k p (by simp [hcall]) hle hlt
    rcases hsweeping.due name htracked hdead with hdue | hdue
    · rw [hunseen] at hdue
      exact absurd hdue (Finset.notMem_empty name)
    · rw [hidle] at hdue
      cases hdue

/-!
A background pass has gone past a member whose entry then expires, and is still
in progress when `prune()` is called.
-/

instance (s : Process) (e : Event) : Decidable (ScansAll s e) := by
  cases e with
  | sscan pass batch last =>
      cases last with
      | true =>
          exact inferInstanceAs
            (Decidable (s.unseen pass ⊆ batch.toFinset))
      | false => exact isTrue trivial
  | _ => exact isTrue trivial

def oneEntry : Db :=
  { entries := {"keyv:/api/a?&&".toList}
    tracked := {"keyv:/api/a?&&".toList} }

def expiresBehindPass : List Event :=
  let name := "keyv:/api/a?&&".toList
  [Event.keys 0, Event.smembers 0, Event.keysResolves 0 0,
    Event.sscan 0 [name] true, Event.exists 0 name, Event.expire name,
    Event.prune 0, Event.passSettles 0, Event.pruneResumes 0 0,
    Event.sscan 1 [name] true, Event.exists 1 name, Event.exec 1,
    Event.exists 1 name, Event.passSettles 1, Event.pruneResolves 0]

theorem prune_awaits_fresh_pass_expiresBehindPass :
    exists s, Reaches (step "keyv".toList) ScansAll (Process.init oneEntry) s ∧
      s.pruneCall 0 = PruneCall.resolved (some 1) ∧ s.starts.length = 2 ∧
      "keyv:/api/a?&&".toList ∉ s.redis.db.tracked := by
  have hsome : (execChecked (step "keyv".toList)
      (fun a e => decide (ScansAll a e)) expiresBehindPass
      (Process.init oneEntry)).isSome = true := by
    decide +kernel
  have hrun := @reaches_lastChecked _ _ (step "keyv".toList) ScansAll
    (fun a e => decide (ScansAll a e)) (fun _ => True) expiresBehindPass
    (Process.init oneEntry) (fun _ _ _ _ _ _ => trivial)
    (fun _ _ _ => of_decide_eq_true) trivial hsome
  have hresolved : (lastChecked (step "keyv".toList)
      (fun a e => decide (ScansAll a e)) expiresBehindPass
      (Process.init oneEntry)).pruneCall 0 =
        PruneCall.resolved (some 1) := by
    decide +kernel
  refine ⟨_, hrun, hresolved, by decide +kernel, ?_⟩
  rcases (prune_awaits_fresh_pass hrun).right.right 0 _ hresolved with
    ⟨_, _, _, _, _, huntracked⟩
  exact huntracked _ (by decide +kernel)

end PruneSchedule

end Redis
end RestCache
