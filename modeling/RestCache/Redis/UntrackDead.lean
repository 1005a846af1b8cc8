import RestCache.Redis.Tracking

/-!
# A prune batch whose commands fail

`untrackDead` issues a round of EXISTS, one SREM, a second round of EXISTS and
at most two SADDs.  Here every one of them may fail, and a failed SREM or SADD
may have applied all the same.  The other clients write, and entries expire,
between any two commands.  Their writes are the SET and SADD of the cluster
model.
-/

namespace RestCache
namespace Redis

namespace UntrackDead

open Foundation.Transition

/-!
## What the caller sees of a command

A rejected promise is `Except.error`, and the `try` blocks of the source are
`tryCatch`, so that a rejection nothing catches is one of the results of the call.
-/

/-- What one EXISTS came to: its count, or a failure. -/
abbrev Reply := Except Unit Nat

/-- How an SREM or SADD ends; a failed one may have applied. -/
inductive Outcome where
  | succeeded
  | failed (applied : Bool)
deriving DecidableEq

def Outcome.applied : Outcome -> Bool
  | Outcome.succeeded => true
  | Outcome.failed applied => applied

def Outcome.settled : Outcome -> Except Unit Unit
  | Outcome.succeeded => pure ()
  | Outcome.failed _ => throw ()

/-- A key counts as found unless a reply says that nothing is there. -/
def found : Option Reply -> Bool
  | some (Except.ok count) => decide (0 < count)
  | some (Except.error _) => true
  | none => true

/-- The check as a whole may fail as well, before any reply is looked at. -/
def existing (keys : List Name) (replies : Except Unit (List (Option Reply))) :
    Except Unit (List Bool) :=
  tryCatch
    (do
      let replies <- replies
      pure (keys.mapIdx fun i _ => found (replies[i]?.getD none)))
    (fun _ => pure (keys.map fun _ => true))

def filterBy (members : List Name) (flags : List Bool) : List Name :=
  (members.zip flags).filterMap fun p => if p.2 then some p.1 else none

/-!
## The call

A round of EXISTS keeps one slot for each key, filled as the replies come in,
in any order.
-/

inductive Stage where
  | checking (members : List Name) (replies : List (Option Reply))
  | untracking (dead : List Name)
  | rechecking (dead : List Name) (replies : List (Option Reply))
  | retracking (attempt : Nat) (rewritten : List Name)
  | returned
  | rejected
deriving DecidableEq

def unanswered (keys : List Name) : List (Option Reply) :=
  keys.map fun _ => none

def afterCheck (members : List Name)
    (replies : Except Unit (List (Option Reply))) : Stage :=
  match existing members replies with
  | Except.error _ => Stage.rejected
  | Except.ok found =>
      let dead := filterBy members (found.map not)
      if dead.isEmpty then Stage.returned else Stage.untracking dead

/-- The reply to the SREM is swallowed: it may still have applied. -/
def afterSrem (dead : List Name) (reply : Except Unit Unit) : Stage :=
  match (tryCatch reply fun _ => pure () : Except Unit Unit) with
  | Except.error _ => Stage.rejected
  | Except.ok _ => Stage.rechecking dead (unanswered dead)

def retrack (attempt : Nat) (rewritten : List Name) : Stage :=
  if attempt < 2 then Stage.retracking attempt rewritten else Stage.returned

def afterRecheck (dead : List Name)
    (replies : Except Unit (List (Option Reply))) : Stage :=
  match existing dead replies with
  | Except.error _ => Stage.rejected
  | Except.ok recheck =>
      let rewritten := filterBy dead recheck
      if rewritten.isEmpty then Stage.returned else retrack 0 rewritten

def afterSadd (attempt : Nat) (rewritten : List Name) :
    Except Unit Unit -> Stage
  | Except.ok _ => Stage.returned
  | Except.error _ => retrack (attempt + 1) rewritten

/--
The call and the clients around it.  `written` collects the names whose write
has issued its SADD since the call began.
-/
structure Call where
  redis : State
  stage : Stage
  written : Finset Name

def start (redis : State) (members : List Name) : Call :=
  { redis := redis
    stage := Stage.checking members (unanswered members)
    written := ∅ }

namespace Call

def goto (s : Call) (stage : Stage) : Call :=
  { s with stage := stage }

def command (s : Call) (applied : Bool) (db : Db) (stage : Stage) : Call :=
  { s with
    redis := if applied then { s.redis with db := db } else s.redis
    stage := stage }

@[simp] theorem command_task (s : Call) (applied : Bool) (db : Db)
    (stage : Stage) :
    (s.command applied db stage).redis.task = s.redis.task := by
  cases applied <;> rfl

theorem command_db (s : Call) (applied : Bool) (db : Db) (stage : Stage) :
    (s.command applied db stage).redis.db =
      if applied then db else s.redis.db := by
  cases applied <;> rfl

end Call

inductive Event where
  | exists (i : Nat)
  | existsFails (i : Nat)
  | answered
  | checkFails
  | srem (outcome : Outcome)
  | sadd (outcome : Outcome)
  | other (e : Redis.Event)

def reply (s : Call) (i : Nat) (answer : Name -> Reply) : Option Call :=
  match s.stage with
  | Stage.checking members replies =>
      match members[i]?, replies[i]? with
      | some name, some none =>
          some (s.goto (Stage.checking members
            (replies.set i (some (answer name)))))
      | _, _ => none
  | Stage.rechecking dead replies =>
      match dead[i]?, replies[i]? with
      | some name, some none =>
          some (s.goto (Stage.rechecking dead
            (replies.set i (some (answer name)))))
      | _, _ => none
  | _ => none

/-- `existing` settles; a pipeline may do so with replies missing. -/
def settle (s : Call) (lost : Bool) : Option Call :=
  match s.stage with
  | Stage.checking members replies =>
      some (s.goto (afterCheck members
        (if lost then throw () else pure replies)))
  | Stage.rechecking dead replies =>
      some (s.goto (afterRecheck dead
        (if lost then throw () else pure replies)))
  | _ => none

def step (ns : Name) (s : Call) : Event -> Option Call
  | Event.exists i =>
      reply s i fun name =>
        Except.ok (if s.redis.db.exist name then 1 else 0)
  | Event.existsFails i => reply s i fun _ => Except.error ()
  | Event.answered => settle s false
  | Event.checkFails => settle s true
  | Event.srem outcome =>
      match s.stage with
      | Stage.untracking dead =>
          some (s.command outcome.applied (s.redis.db.srem dead)
            (afterSrem dead outcome.settled))
      | _ => none
  | Event.sadd outcome =>
      match s.stage with
      | Stage.retracking attempt rewritten =>
          some (s.command outcome.applied (s.redis.db.sadd rewritten)
            (afterSadd attempt rewritten outcome.settled))
      | _ => none
  | Event.other e =>
      (Redis.step ns s.redis e).map fun redis =>
        { s with redis := redis, written := s.written ∪ saddOf s.redis e }

/-!
## The runs considered

The other clients only write, and entries expire.  Of the two attempts to put
members back, not both fail.
-/

def Admitted (s : Call) : Event -> Prop
  | Event.other e => Writes e
  | Event.sadd (Outcome.failed _) =>
      match s.stage with
      | Stage.retracking attempt _ => attempt = 0
      | _ => True
  | _ => True

/-!
## What a check settles to

`existing` never rejects, and a member is put back unless a reply to the
second check said that its entry was gone.
-/

def slot (replies : Except Unit (List (Option Reply))) (i : Nat) :
    Option Reply :=
  match replies with
  | Except.ok replies => replies[i]?.getD none
  | Except.error _ => none

theorem existing_eq (keys : List Name)
    (replies : Except Unit (List (Option Reply))) :
    existing keys replies =
      Except.ok (keys.mapIdx fun i _ => found (slot replies i)) := by
  cases replies with
  | ok replies => rfl
  | error e =>
      have hflags : (keys.map fun _ => true) =
          keys.mapIdx fun _ _ => found none := by
        simp [found, List.ext_getElem_iff]
      show Except.ok (keys.map fun _ => true) = _
      rw [hflags]
      rfl

theorem mem_filterBy_mapIdx {keys : List Name} {flag : Nat -> Bool}
    {name : Name} :
    name ∈ filterBy keys (keys.mapIdx fun i _ => flag i) <->
      exists i, keys[i]? = some name ∧ flag i = true := by
  unfold filterBy
  rw [List.mem_filterMap]
  constructor
  · intro h
    rcases h with ⟨⟨key, kept⟩, hmem, hsome⟩
    rcases List.mem_iff_getElem?.mp hmem with ⟨i, hi⟩
    rcases List.getElem?_zip_eq_some.mp hi with ⟨hkey, hflag⟩
    simp only at hkey hflag
    rw [List.getElem?_mapIdx, hkey] at hflag
    simp only [Option.map_some, Option.some.injEq] at hflag
    cases kept with
    | false => simp at hsome
    | true =>
        simp only [if_true, Option.some.injEq] at hsome
        exact ⟨i, hsome ▸ hkey, hflag⟩
  · intro h
    rcases h with ⟨i, hkey, hflag⟩
    refine ⟨(name, true), List.mem_iff_getElem?.mpr ⟨i, ?_⟩, by simp⟩
    apply List.getElem?_zip_eq_some.mpr
    constructor
    · exact hkey
    · rw [List.getElem?_mapIdx, hkey]
      simp [hflag]

/-- The members the call still has to put back, or to ask about again. -/
def PutsBack (name : Name) : Stage -> Prop
  | Stage.rechecking dead replies =>
      exists i : Nat, dead[i]? = some name ∧
        found (replies[i]?.getD none) = true
  | Stage.retracking _ rewritten => name ∈ rewritten
  | _ => False

theorem afterCheck_cases (members : List Name)
    (replies : Except Unit (List (Option Reply))) :
    afterCheck members replies = Stage.returned ∨
      exists dead, afterCheck members replies = Stage.untracking dead := by
  unfold afterCheck
  rw [existing_eq]
  simp only
  split
  · exact Or.inl rfl
  · exact Or.inr ⟨_, rfl⟩

theorem afterSrem_eq (dead : List Name) (reply : Except Unit Unit) :
    afterSrem dead reply = Stage.rechecking dead (unanswered dead) := by
  cases reply <;> rfl

theorem afterRecheck_cases (dead : List Name)
    (replies : Except Unit (List (Option Reply))) :
    afterRecheck dead replies = Stage.returned ∨
      exists rewritten,
        afterRecheck dead replies = Stage.retracking 0 rewritten := by
  unfold afterRecheck
  rw [existing_eq]
  simp only
  split
  · exact Or.inl rfl
  · exact Or.inr ⟨_, rfl⟩

theorem putsBack_afterRecheck {dead : List Name}
    {replies : Except Unit (List (Option Reply))} {name : Name} {i : Nat}
    (hname : dead[i]? = some name) (hfound : found (slot replies i) = true) :
    PutsBack name (afterRecheck dead replies) := by
  have hmem : name ∈ filterBy dead
      (dead.mapIdx fun i _ => found (slot replies i)) :=
    mem_filterBy_mapIdx.mpr ⟨i, hname, hfound⟩
  unfold afterRecheck
  rw [existing_eq]
  simp only
  split
  · rename_i hempty
    rw [List.isEmpty_iff] at hempty
    rw [hempty] at hmem
    cases hmem
  · simpa [retrack, PutsBack] using hmem

theorem putsBack_unanswered {dead : List Name} {name : Name}
    (hname : name ∈ dead) :
    PutsBack name (Stage.rechecking dead (unanswered dead)) := by
  rcases List.mem_iff_getElem?.mp hname with ⟨i, hi⟩
  refine ⟨i, hi, ?_⟩
  have hslot : (unanswered dead)[i]? = some none := by
    unfold unanswered
    rw [List.getElem?_map, hi]
    rfl
  rw [hslot]
  rfl

/-!
## The invariant

A live member that was tracked when the call began, or by its own write since,
is still tracked, or the SADD of its latest write is to come, or the call has
yet to put it back.  The SREM moves members from the first case to the third;
an EXISTS takes a member out of the third only when its entry is gone.
-/

def Kept (s : Call) (name : Name) : Prop :=
  name ∈ s.redis.db.tracked ∨
    (exists c, s.redis.task c = Task.tracking name) ∨ PutsBack name s.stage

structure Safe (tracked : Finset Name) (s : Call) : Prop where
  writing : forall c, Writing (s.redis.task c)
  not_rejected : s.stage ≠ Stage.rejected
  kept : forall name, name ∈ s.redis.db.entries ->
    name ∈ tracked ∨ name ∈ s.written -> Kept s name

variable {ns : Name} {tracked : Finset Name} {s t : Call}

theorem safe_start {redis : State} {members : List Name}
    (hwriting : forall c, Writing (redis.task c)) :
    Safe redis.db.tracked (start redis members) := by
  constructor
  · exact hwriting
  · simp [start]
  · intro name _ hknown
    rcases hknown with h | h
    · exact Or.inl h
    · simp [start] at h

theorem safe_goto {stage : Stage} (hinv : Safe tracked s)
    (hstage : stage ≠ Stage.rejected)
    (hputsBack : forall name, name ∈ s.redis.db.entries ->
      PutsBack name s.stage -> PutsBack name stage) :
    Safe tracked (s.goto stage) := by
  constructor
  · exact hinv.writing
  · exact hstage
  · intro name hentry hknown
    rcases hinv.kept name hentry hknown with h | h | h
    · exact Or.inl h
    · exact Or.inr (Or.inl h)
    · exact Or.inr (Or.inr (hputsBack name hentry h))

theorem safe_reply {i : Nat} {answer : Name -> Reply}
    (hanswer : forall name, name ∈ s.redis.db.entries ->
      found (some (answer name)) = true)
    (hinv : Safe tracked s) (h : reply s i answer = some t) :
    Safe tracked t := by
  unfold reply at h
  split at h
  · split at h
    · cases h
      rename_i hstage _ _ _ _ _
      apply safe_goto hinv (by simp)
      intro name _ hback
      simp [hstage, PutsBack] at hback
    · cases h
  · split at h
    · rename_i dead replies hstage _ _ asked hasked hslot
      cases h
      apply safe_goto hinv (by simp)
      intro name hentry hback
      rw [hstage] at hback
      rcases hback with ⟨j, hj, hfound⟩
      refine ⟨j, hj, ?_⟩
      by_cases hij : i = j
      · -- The reply is about this very name, whose entry exists.
        subst hij
        have hsame : asked = name := by
          rw [hasked] at hj
          exact Option.some.inj hj
        subst hsame
        rcases List.getElem?_eq_some_iff.mp hslot with ⟨hlt, _⟩
        simp only [List.getElem?_set_self hlt, Option.getD_some]
        exact hanswer asked hentry
      · rw [List.getElem?_set_ne hij]
        exact hfound
    · cases h
  · cases h

theorem safe_settle {lost : Bool} (hinv : Safe tracked s)
    (h : settle s lost = some t) : Safe tracked t := by
  unfold settle at h
  split at h
  · rename_i members replies hstage
    cases h
    apply safe_goto hinv
    · rcases afterCheck_cases members
        (if lost then throw () else pure replies) with hnext | ⟨dead, hnext⟩
      · simp [hnext]
      · simp [hnext]
    · intro name _ hback
      simp [hstage, PutsBack] at hback
  · rename_i dead replies hstage
    cases h
    apply safe_goto hinv
    · rcases afterRecheck_cases dead
        (if lost then throw () else pure replies) with hnext | ⟨_, hnext⟩
      · simp [hnext]
      · simp [hnext]
    · intro name _ hback
      rw [hstage] at hback
      rcases hback with ⟨i, hi, hfound⟩
      apply putsBack_afterRecheck hi
      cases lost with
      | false => exact hfound
      | true => rfl
  · cases h

theorem safe_command {applied : Bool} {db : Db} {stage : Stage}
    (hinv : Safe tracked s)
    (hstage : stage ≠ Stage.rejected)
    (hentries : db.entries = s.redis.db.entries)
    (htracked : forall name, name ∈ s.redis.db.tracked ->
      name ∈ db.tracked ∨ PutsBack name stage)
    (hputsBack : forall name, PutsBack name s.stage ->
      (applied = true ∧ name ∈ db.tracked) ∨ PutsBack name stage) :
    Safe tracked (s.command applied db stage) := by
  constructor
  · simpa using hinv.writing
  · exact hstage
  · intro name hentry hknown
    have hentry' : name ∈ s.redis.db.entries := by
      rw [Call.command_db] at hentry
      cases applied with
      | true => exact hentries ▸ hentry
      | false => exact hentry
    unfold Kept
    rw [Call.command_db, Call.command_task]
    rcases hinv.kept name hentry' hknown with h | h | h
    · rcases htracked name h with hnew | hback
      · cases applied with
        | true => exact Or.inl hnew
        | false => exact Or.inl h
      · exact Or.inr (Or.inr hback)
    · exact Or.inr (Or.inl h)
    · rcases hputsBack name h with ⟨happlied, hnew⟩ | hback
      · left
        rw [if_pos happlied]
        exact hnew
      · exact Or.inr (Or.inr hback)

theorem safe_srem {outcome : Outcome} (hinv : Safe tracked s)
    (h : step ns s (Event.srem outcome) = some t) : Safe tracked t := by
  simp only [step] at h
  split at h
  · rename_i dead hstage
    cases h
    rw [afterSrem_eq]
    apply safe_command hinv
    · simp
    · rfl
    · intro name hname
      by_cases hdead : name ∈ dead
      · exact Or.inr (putsBack_unanswered hdead)
      · left
        simp [Db.srem, hname, hdead]
    · intro name hback
      simp [hstage, PutsBack] at hback
  · cases h

theorem safe_sadd {outcome : Outcome} (hinv : Safe tracked s)
    (hok : Admitted s (Event.sadd outcome))
    (h : step ns s (Event.sadd outcome) = some t) : Safe tracked t := by
  simp only [step] at h
  split at h
  · rename_i attempt rewritten hstage
    cases h
    have hnext : forall name, name ∈ s.redis.db.tracked ->
        name ∈ (s.redis.db.sadd rewritten).tracked := by
      intro name hname
      simp [Db.sadd, hname]
    cases outcome with
    | succeeded =>
        apply safe_command hinv
        · simp [afterSadd, Outcome.settled, pure, Except.pure]
        · rfl
        · intro name hname
          exact Or.inl (hnext name hname)
        · intro name hback
          rw [hstage] at hback
          left
          exact ⟨rfl, by simp [Db.sadd, show name ∈ rewritten from hback]⟩
    | failed applied =>
        -- Only the first attempt fails, so that another one follows it.
        simp only [Admitted, hstage] at hok
        subst hok
        have hretry : afterSadd 0 rewritten (Outcome.failed applied).settled =
            Stage.retracking 1 rewritten := rfl
        rw [hretry]
        apply safe_command hinv
        · simp
        · rfl
        · intro name hname
          exact Or.inl (hnext name hname)
        · intro name hback
          rw [hstage] at hback
          exact Or.inr hback
  · cases h

/-!
## The other clients
-/

theorem safe_other {e : Redis.Event} (hinv : Safe tracked s)
    (hwrites : Writes e) (h : step ns s (Event.other e) = some t) :
    Safe tracked t := by
  simp only [step, Option.map_eq_some_iff] at h
  rcases h with ⟨redis, hredis, ht⟩
  cases ht
  have hwrote := wrote_step hinv.writing hwrites hredis
  constructor
  · exact hwrote.writing
  · exact hinv.not_rejected
  · intro name hentry hknown
    unfold Kept
    simp only at hentry hknown ⊢
    rw [hwrote.tracked, Finset.mem_union]
    by_cases hadded : name ∈ saddOf s.redis e
    · exact Or.inl (Or.inr hadded)
    · rcases hwrote.entries name hentry with hold | htracking
      · have hknown' : name ∈ tracked ∨ name ∈ s.written := by
          rcases hknown with h | h
          · exact Or.inl h
          · exact Or.inr ((Finset.mem_union.mp h).resolve_right hadded)
        rcases hinv.kept name hold hknown' with h | ⟨c, hc⟩ | h
        · exact Or.inl (Or.inl h)
        · have hstill := (hwrote.tracking c name hc).resolve_left hadded
          exact Or.inr (Or.inl ⟨c, hstill⟩)
        · exact Or.inr (Or.inr h)
      · exact Or.inr (Or.inl htracking)

/-!
## Whole runs
-/

theorem safe_step {e : Event} (hinv : Safe tracked s) (hok : Admitted s e)
    (h : step ns s e = some t) : Safe tracked t := by
  cases e with
  | «exists» i =>
      apply safe_reply _ hinv h
      intro name hname
      simp [Db.exist, hname, found]
  | existsFails i =>
      apply safe_reply _ hinv h
      intro name _
      rfl
  | answered => exact safe_settle hinv h
  | checkFails => exact safe_settle hinv h
  | srem outcome => exact safe_srem hinv h
  | sadd outcome => exact safe_sadd hinv hok h
  | other e => exact safe_other hinv hok h

theorem safe_reaches {redis : State} {members : List Name}
    (hwriting : forall c, Writing (redis.task c))
    (h : Reaches (step ns) Admitted (start redis members) t) :
    Safe redis.db.tracked t := by
  apply reaches_invariant _ _ h
  · exact safe_start hwriting
  · intro a e b hinv hok hstep
    exact safe_step hinv hok hstep

/-!
The call is never stuck: its own next command, or the settling of the round of
EXISTS it is in, leads on to its end.
-/

def Returns (ns : Name) (s : Call) : Prop :=
  exists t, Reaches (step ns) Admitted s t ∧ t.stage = Stage.returned

theorem returns_of_step {e : Event} (hok : Admitted s e)
    (h : step ns s e = some t) (hreturns : Returns ns t) : Returns ns s := by
  rcases hreturns with ⟨u, hrun, hu⟩
  have hfirst : Reaches (step ns) Admitted s t :=
    reaches_tail (reaches_refl s) hok h
  exact ⟨u, reaches_trans hfirst hrun, hu⟩

theorem returns_of_returned (h : s.stage = Stage.returned) : Returns ns s :=
  ⟨s, reaches_refl s, h⟩

theorem returns_retracking {attempt : Nat} {rewritten : List Name}
    (h : s.stage = Stage.retracking attempt rewritten) : Returns ns s := by
  have hnext : step ns s (Event.sadd Outcome.succeeded) =
      some (s.command true (s.redis.db.sadd rewritten) Stage.returned) := by
    simp only [step, h]
    rfl
  apply returns_of_step _ hnext
  · exact returns_of_returned rfl
  · trivial

theorem returns_rechecking {dead : List Name}
    {replies : List (Option Reply)}
    (h : s.stage = Stage.rechecking dead replies) : Returns ns s := by
  have hnext : step ns s Event.answered =
      some (s.goto (afterRecheck dead (pure replies))) := by
    simp [step, settle, h]
  apply returns_of_step (show Admitted s Event.answered from trivial) hnext
  rcases afterRecheck_cases dead (pure replies) with hafter | ⟨_, hafter⟩
  · exact returns_of_returned hafter
  · exact returns_retracking hafter

theorem returns_untracking {dead : List Name}
    (h : s.stage = Stage.untracking dead) : Returns ns s := by
  have hnext : step ns s (Event.srem Outcome.succeeded) =
      some (s.command true (s.redis.db.srem dead)
        (Stage.rechecking dead (unanswered dead))) := by
    simp [step, h, afterSrem_eq, Outcome.applied]
  apply returns_of_step _ hnext
  · exact returns_rechecking rfl
  · trivial

theorem returns_of_safe (hinv : Safe tracked s) : Returns ns s := by
  cases hstage : s.stage with
  | checking members replies =>
      have hnext : step ns s Event.answered =
          some (s.goto (afterCheck members (pure replies))) := by
        simp [step, settle, hstage]
      apply returns_of_step (show Admitted s Event.answered from trivial) hnext
      rcases afterCheck_cases members (pure replies) with hafter | ⟨_, hafter⟩
      · exact returns_of_returned hafter
      · exact returns_untracking hafter
  | untracking dead => exact returns_untracking hstage
  | rechecking dead replies => exact returns_rechecking hstage
  | retracking attempt rewritten => exact returns_retracking hstage
  | returned => exact returns_of_returned hstage
  | rejected => exact absurd hstage hinv.not_rejected

/--
Whatever its commands come to, a batch is pruned without rejecting, the call can
always still return, and no live member that anyone tracked is lost by it.
-/
theorem untrackDead_keeps_live {redis : State} {members : List Name}
    (hwriting : forall c, Writing (redis.task c))
    (hrun : Reaches (step ns) Admitted (start redis members) t) :
    t.stage ≠ Stage.rejected ∧ Returns ns t ∧
      (t.stage = Stage.returned -> (forall c, t.redis.task c = Task.idle) ->
        forall name, name ∈ members -> name ∈ t.redis.db.entries ->
          name ∈ redis.db.tracked ∨ name ∈ t.written ->
          name ∈ t.redis.db.tracked) := by
  have hinv := safe_reaches hwriting hrun
  refine ⟨hinv.not_rejected, returns_of_safe hinv, ?_⟩
  intro hreturned hidle name _ hentry hknown
  rcases hinv.kept name hentry hknown with h | ⟨c, hc⟩ | h
  · exact h
  · rw [hidle c] at hc
    cases hc
  · rw [hreturned] at h
    exact h.elim

/-!
Everything that can go wrong at once: a write lands after the check, the SREM
applies but fails, the second check fails as a whole, and so does the first
attempt to put the member back.
-/

instance (s : Call) (e : Event) : Decidable (Admitted s e) := by
  cases e with
  | other e => cases e <;> unfold Admitted Writes <;> infer_instance
  | sadd outcome =>
      cases outcome with
      | succeeded => exact isTrue trivial
      | failed applied =>
          unfold Admitted
          cases s.stage <;> infer_instance
  | _ => exact isTrue trivial

def expired : State :=
  { db := { entries := ∅, tracked := {"keyv:/api/a?&&".toList} }
    task := fun _ => Task.idle }

def everythingFails : List Event :=
  [Event.exists 0, Event.answered,
    Event.other (Redis.Event.set 0 "/api/a?&&".toList),
    Event.other (Redis.Event.exec 0), Event.other (Redis.Event.exec 0),
    Event.srem (Outcome.failed true), Event.existsFails 0, Event.checkFails,
    Event.sadd (Outcome.failed false), Event.sadd Outcome.succeeded]

theorem step_task_of_ne {e : Event} {c : Client}
    (hne : forall f, e = Event.other f -> f.client ≠ some c)
    (h : step ns s e = some t) : t.redis.task c = s.redis.task c := by
  cases e with
  | other f =>
      simp only [step, Option.map_eq_some_iff] at h
      rcases h with ⟨redis, hredis, ht⟩
      cases ht
      exact Redis.step_task_of_ne (hne f rfl) hredis
  | srem outcome =>
      simp only [step] at h
      split at h <;> cases h
      rw [Call.command_task]
  | sadd outcome =>
      simp only [step] at h
      split at h <;> cases h
      rw [Call.command_task]
  | answered =>
      simp only [step, settle] at h
      split at h <;> cases h <;> rfl
  | checkFails =>
      simp only [step, settle] at h
      split at h <;> cases h <;> rfl
  | «exists» i =>
      simp only [step, reply] at h
      split at h
      · split at h <;> cases h
        rfl
      · split at h <;> cases h
        rfl
      · cases h
  | existsFails i =>
      simp only [step, reply] at h
      split at h
      · split at h <;> cases h
        rfl
      · split at h <;> cases h
        rfl
      · cases h

theorem untrackDead_keeps_live_everythingFails :
    exists t, Reaches (step "keyv".toList) Admitted
        (start expired ["keyv:/api/a?&&".toList]) t ∧
      t.stage = Stage.returned ∧
      "keyv:/api/a?&&".toList ∈ t.redis.db.tracked := by
  let members := ["keyv:/api/a?&&".toList]
  have hknown : forall (a : Call) (e : Event) (b : Call),
      (forall c, c ≠ 0 -> a.redis.task c = Task.idle) ->
      e ∈ everythingFails -> step "keyv".toList a e = some b ->
      forall c, c ≠ 0 -> b.redis.task c = Task.idle := by
    intro a e b ha he hstep c hc
    rw [step_task_of_ne _ hstep]
    · exact ha c hc
    · intro f hf
      subst hf
      simp only [everythingFails, List.mem_cons, List.not_mem_nil,
        Event.other.injEq, reduceCtorEq, or_false, false_or] at he
      rcases he with he | he | he <;>
        simp [he, Redis.Event.client, Ne.symm hc]
  have hsome : (execChecked (step "keyv".toList)
      (fun a e => decide (Admitted a e)) everythingFails
      (start expired members)).isSome = true := by
    decide +kernel
  have hrun : Reaches (step "keyv".toList) Admitted (start expired members)
      (lastChecked (step "keyv".toList) (fun a e => decide (Admitted a e))
        everythingFails (start expired members)) :=
    reaches_lastChecked hknown (fun _ _ _ => of_decide_eq_true)
      (fun _ _ => rfl) hsome
  have hidle := @lastChecked_known _ _ (step "keyv".toList)
    (fun a e => decide (Admitted a e))
    (fun a => forall c, c ≠ 0 -> a.redis.task c = Task.idle)
    everythingFails (start expired members) hknown (fun _ _ => rfl)
  refine ⟨_, hrun, by decide +kernel, ?_⟩
  have hwriting : forall c, Writing (expired.task c) := by
    intro c
    trivial
  apply (untrackDead_keeps_live hwriting hrun).right.right
  · decide +kernel
  · intro c
    by_cases hc : c = 0
    · subst hc
      decide +kernel
    · exact hidle c hc
  · exact List.mem_singleton.mpr rfl
  · decide +kernel
  · exact Or.inl (by decide)

end UntrackDead

end Redis
end RestCache
