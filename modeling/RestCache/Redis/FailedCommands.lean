import RestCache.Redis.ConcurrentPurge

/-!
# Commands that fail

Any command of any client may fail, and one that failed may have applied all the
same.  Only some failures take an entry out of the sight of every purge: those
between the two commands of a write or a delete, and the second of the two SADDs
by which a prune pass puts names back.  None of the others does, whatever runs
at the same time.
-/

namespace RestCache
namespace Redis

open Foundation

/-!
## Failures
-/

/-- `tried` says that the first SADD of a client's `retrack` has failed. -/
structure FaultyState where
  state : State
  tried : Client -> Bool

inductive FaultyEvent where
  | done (e : Event)
  | failed (e : Event) (applied : Bool)

def FaultyState.init : FaultyState where
  state := State.init
  tried _ := false

def attempted (applied : Bool) (before after : Db) : Db :=
  if applied then after else before

def FaultyState.command (s : FaultyState) (c : Client) (db : Db) (task : Task) :
    FaultyState :=
  { s with state := s.state.command c db task }

def failExec (s : FaultyState) (c : Client) (applied : Bool) :
    Option FaultyState :=
  let db := s.state.db
  match s.state.task c with
  | Task.setting name =>
      some (s.command c (attempted applied db (db.set name)) Task.idle)
  | Task.tracking name =>
      some (s.command c (attempted applied db (db.sadd [name])) Task.idle)
  | Task.untracking name =>
      some (s.command c (attempted applied db (db.srem [name])) Task.idle)
  | Task.unlinking name =>
      some (s.command c (attempted applied db (db.unlink name)) Task.idle)
  | Task.untrackingMany _ pending =>
      some (s.command c
        (attempted applied db (db.srem (pending.take SREM_CHUNK))) Task.idle)
  | Task.untrackingDead dead last =>
      some (s.command c (attempted applied db (db.srem dead))
        (Task.rechecking dead [] last))
  | Task.retracking rewritten last =>
      let t := s.command c (attempted applied db (db.sadd rewritten))
        (if s.tried c then afterBatch last else Task.retracking rewritten last)
      some { t with tried := Function.update s.tried c (!s.tried c) }
  | _ => none

/-- `Promise.all` rejects; what is in flight completes, the rest is not sent. -/
def failUnlink (s : FaultyState) (c : Client) (name : Name) (applied : Bool) :
    Option FaultyState :=
  match s.state.task c with
  | Task.unlinkingMany batch _ =>
      if name ∈ batch then
        let left := batch.erase name
        some (s.command c (attempted applied s.state.db (s.state.db.unlink name))
          (if left.isEmpty then Task.idle else Task.unlinkingMany left []))
      else
        none
  | _ => none

/-- A key whose check fails is taken to exist. -/
def failExists (s : FaultyState) (c : Client) (name : Name) :
    Option FaultyState :=
  match s.state.task c with
  | Task.checking waiting dead last =>
      if name ∈ waiting then
        let left := waiting.erase name
        some (s.command c s.state.db
          (if left.isEmpty then afterCheck dead last
            else Task.checking left dead last))
      else
        none
  | Task.rechecking waiting rewritten last =>
      if name ∈ waiting then
        let left := waiting.erase name
        some (s.command c s.state.db
          (if left.isEmpty then afterRecheck (rewritten ++ [name]) last
            else Task.rechecking left (rewritten ++ [name]) last))
      else
        none
  | _ => none

/-- The pass ends where its SSCAN fails. -/
def failSscan (s : FaultyState) (c : Client) : Option FaultyState :=
  match s.state.task c with
  | Task.scanning => some (s.command c s.state.db Task.idle)
  | _ => none

/-- A SADD that succeeds ends the `retrack` of the client. -/
def triedAfter (tried : Client -> Bool) : Event -> Client -> Bool
  | Event.exec c => Function.update tried c false
  | _ => tried

def faultyStep (ns : Name) (s : FaultyState) : FaultyEvent -> Option FaultyState
  | FaultyEvent.done e =>
      (step ns s.state e).map fun t =>
        { state := t, tried := triedAfter s.tried e }
  | FaultyEvent.failed (Event.exec c) applied => failExec s c applied
  | FaultyEvent.failed (Event.execUnlink c name) applied =>
      failUnlink s c name applied
  | FaultyEvent.failed (Event.execExists c name) _ => failExists s c name
  | FaultyEvent.failed (Event.execSscan c _ _) _ => failSscan s c
  | FaultyEvent.failed _ _ => none

/-!
## Failures that lose an entry
-/

/-- The task ends with the name untracked, or with its entry left behind. -/
def LosesTask (name : Name) (tried applied : Bool) : Task -> Prop
  | Task.setting n => applied = true ∧ n = name
  | Task.tracking n => applied = false ∧ n = name
  | Task.untracking n => applied = true ∧ n = name
  | Task.unlinking n => applied = false ∧ n = name
  | Task.untrackingMany untracked pending =>
      name ∈ untracked ∨ (applied = true ∧ name ∈ pending.take SREM_CHUNK)
  | Task.retracking rewritten _ =>
      tried = true ∧ applied = false ∧ name ∈ rewritten
  | _ => False

/-- The event is a failure by which a live entry may go untracked for good. -/
def Loses (name : Name) (s : FaultyState) : FaultyEvent -> Prop
  | FaultyEvent.failed (Event.exec c) applied =>
      LosesTask name (s.tried c) applied (s.state.task c)
  | FaultyEvent.failed (Event.execUnlink c unlinked) applied =>
      (applied = false ∧ unlinked = name) ∨ exists batch rest,
        s.state.task c = Task.unlinkingMany batch rest ∧ name ∈ rest
  | _ => False

/-!
## What a task keeps

Narrower than what a task owes: a name that is still to be untracked is not
kept by that, so that the operation may end before it.
-/

/-- The client will track the name again, unlink its entry, or check it again. -/
def Keeps (name : Name) : Task -> Prop
  | Task.tracking n => n = name
  | Task.unlinking n => n = name
  | Task.untrackingMany untracked _ => name ∈ untracked
  | Task.unlinkingMany batch rest => name ∈ batch ∨ name ∈ rest
  | Task.rechecking waiting rewritten _ => name ∈ waiting ∨ name ∈ rewritten
  | Task.retracking rewritten _ => name ∈ rewritten
  | _ => False

/-- A name that is tracked, or that some client keeps. -/
def Kept (s : State) (name : Name) : Prop :=
  name ∈ s.db.tracked ∨ exists c, Keeps name (s.task c)

/-- One client's command does not let go of the name while it has an entry. -/
structure HoldsOn (name : Name) (s : State) (c : Client) (db : Db)
    (task : Task) : Prop where
  entries : name ∈ db.entries -> name ∈ s.db.entries ∨ Keeps name task
  tracked : name ∈ db.entries -> name ∈ s.db.tracked ->
    name ∈ db.tracked ∨ Keeps name task
  keeps : name ∈ db.entries -> Keeps name (s.task c) ->
    name ∈ db.tracked ∨ Keeps name task

section Kept

variable {name : Name} {s : State} {c : Client} {db : Db} {task : Task}

theorem kept_command (h : HoldsOn name s c db task)
    (hs : name ∈ s.db.entries -> Kept s name)
    (hname : name ∈ (s.command c db task).db.entries) :
    Kept (s.command c db task) name := by
  have hself : name ∈ db.tracked ∨ Keeps name task ->
      Kept (s.command c db task) name := by
    intro h
    rcases h with h | h
    · exact Or.inl h
    · exact Or.inr ⟨c, by simpa [State.command] using h⟩
  rcases h.entries hname with hold | hnew
  · rcases hs hold with htracked | ⟨d, hkeeps⟩
    · exact hself (h.tracked hname htracked)
    · by_cases hd : d = c
      · exact hself (h.keeps hname (hd ▸ hkeeps))
      · exact Or.inr ⟨d, by simpa [State.command, hd] using hkeeps⟩
  · exact hself (Or.inr hnew)

theorem holdsOn_idle (hkeeps : ¬ Keeps name (s.task c)) :
    HoldsOn name s c s.db task :=
  ⟨Or.inl, fun _ htracked => Or.inl htracked,
    fun _ h => absurd h hkeeps⟩

theorem keeps_nextUnlinks {rest : List Name} :
    Keeps name (nextUnlinks rest) <-> name ∈ rest := by
  unfold nextUnlinks
  cases rest with
  | nil => simp [Keeps]
  | cons head tail =>
      have hsplit := List.take_append_drop CONCURRENCY (head :: tail)
      rw [if_neg (by simp)]
      show name ∈ _ ∨ name ∈ _ <-> _
      rw [← List.mem_append, hsplit]

theorem keeps_nextSrem {untracked pending : List Name}
    (h : name ∈ untracked) : Keeps name (nextSrem untracked pending) := by
  unfold nextSrem
  split
  · exact keeps_nextUnlinks.mpr h
  · exact h

theorem keeps_afterRecheck {rewritten : List Name} {last : Bool}
    (h : name ∈ rewritten) : Keeps name (afterRecheck rewritten last) := by
  unfold afterRecheck
  cases rewritten with
  | nil => exact absurd h List.not_mem_nil
  | cons head tail => exact h

theorem tracked_srem {db : Db} (members : List Name) (h : name ∈ db.tracked) :
    name ∈ (db.srem members).tracked ∨ name ∈ members := by
  by_cases hmem : name ∈ members
  · exact Or.inr hmem
  · exact Or.inl (by simp [Db.srem, h, hmem])

theorem tracked_sadd {db : Db} {members : List Name}
    (h : name ∈ db.tracked ∨ name ∈ members) :
    name ∈ (db.sadd members).tracked := by
  simpa [Db.sadd] using h

end Kept

/-!
## Commands that succeed
-/

section Done

variable {ns name : Name} {s t : State} {c : Client}

theorem kept_call {task : Task} (hs : name ∈ s.db.entries -> Kept s name)
    (h : call s c task = some t) (hname : name ∈ t.db.entries) :
    Kept t name := by
  unfold call at h
  split at h
  · rename_i hidle
    cases h
    have hkeeps : ¬ Keeps name (s.task c) := by
      rw [hidle]
      exact id
    exact kept_command (holdsOn_idle hkeeps) hs hname
  · cases h

theorem kept_exec (hs : name ∈ s.db.entries -> Kept s name)
    (h : exec s c = some t) (hname : name ∈ t.db.entries) : Kept t name := by
  unfold exec at h
  split at h
  · -- SET: the SADD is still to come.
    rename_i n hc
    cases h
    refine kept_command ⟨?_, fun _ => Or.inl, ?_⟩ hs hname
    · intro hentry
      rcases Finset.mem_insert.mp hentry with heq | hold
      · exact Or.inr heq.symm
      · exact Or.inl hold
    · intro _ hkeeps
      rw [hc] at hkeeps
      exact hkeeps.elim
  · rename_i n hc
    cases h
    refine kept_command ⟨Or.inl, ?_, ?_⟩ hs hname
    · exact fun _ htracked => Or.inl (tracked_sadd (Or.inl htracked))
    · intro _ hkeeps
      rw [hc] at hkeeps
      exact Or.inl (tracked_sadd (Or.inr (List.mem_singleton.mpr hkeeps.symm)))
  · -- SREM: the UNLINK is still to come.
    rename_i n hc
    cases h
    refine kept_command ⟨Or.inl, ?_, ?_⟩ hs hname
    · intro _ htracked
      exact (tracked_srem [n] htracked).imp_right
        (fun hmem => (List.mem_singleton.mp hmem).symm)
    · intro _ hkeeps
      rw [hc] at hkeeps
      exact hkeeps.elim
  · rename_i n hc
    cases h
    refine kept_command ⟨?_, fun _ => Or.inl, ?_⟩ hs hname
    · exact fun hentry => Or.inl (Finset.mem_of_mem_erase hentry)
    · intro hentry hkeeps
      rw [hc] at hkeeps
      exact absurd hkeeps.symm (Finset.ne_of_mem_erase hentry)
  · -- A chunk is untracked, and unlinked afterwards.
    rename_i untracked pending hc
    cases h
    refine kept_command ⟨Or.inl, ?_, ?_⟩ hs hname
    · intro _ htracked
      exact (tracked_srem _ htracked).imp_right
        (fun hmem => keeps_nextSrem (List.mem_append_right _ hmem))
    · intro _ hkeeps
      rw [hc] at hkeeps
      exact Or.inr (keeps_nextSrem (List.mem_append_left _ hkeeps))
  · -- The dead are checked again.
    rename_i dead last hc
    cases h
    refine kept_command ⟨Or.inl, ?_, ?_⟩ hs hname
    · exact fun _ htracked => (tracked_srem dead htracked).imp_right Or.inl
    · intro _ hkeeps
      rw [hc] at hkeeps
      exact hkeeps.elim
  · rename_i rewritten last hc
    cases h
    refine kept_command ⟨Or.inl, ?_, ?_⟩ hs hname
    · exact fun _ htracked => Or.inl (tracked_sadd (Or.inl htracked))
    · intro _ hkeeps
      rw [hc] at hkeeps
      exact Or.inl (tracked_sadd (Or.inr hkeeps))
  · cases h

theorem kept_execUnlink {unlinked : Name}
    (hs : name ∈ s.db.entries -> Kept s name)
    (h : execUnlink s c unlinked = some t) (hname : name ∈ t.db.entries) :
    Kept t name := by
  unfold execUnlink at h
  split at h
  · rename_i batch rest hc
    split at h
    · cases h
      refine kept_command ⟨?_, fun _ => Or.inl, ?_⟩ hs hname
      · exact fun hentry => Or.inl (Finset.mem_of_mem_erase hentry)
      · intro hentry hkeeps
        rw [hc] at hkeeps
        have hne := Finset.ne_of_mem_erase hentry
        have hleft : name ∈ batch.erase unlinked ∨ name ∈ rest :=
          hkeeps.imp_left (List.mem_erase_of_ne hne).mpr
        right
        split
        · rename_i hempty
          rw [List.isEmpty_iff.mp hempty] at hleft
          exact keeps_nextUnlinks.mpr
            (hleft.resolve_left List.not_mem_nil)
        · exact hleft
    · cases h
  · cases h

theorem kept_execExists {asked : Name}
    (hs : name ∈ s.db.entries -> Kept s name)
    (h : execExists s c asked = some t) (hname : name ∈ t.db.entries) :
    Kept t name := by
  unfold execExists at h
  split at h
  · rename_i waiting dead last hc
    split at h
    · cases h
      have hkeeps : ¬ Keeps name (s.task c) := by
        rw [hc]
        exact id
      exact kept_command (holdsOn_idle hkeeps) hs hname
    · cases h
  · rename_i waiting rewritten last hc
    split at h
    · cases h
      refine kept_command ⟨Or.inl, fun _ => Or.inl, ?_⟩ hs hname
      intro hentry hkeeps
      rw [hc] at hkeeps
      have hleft : name ∈ waiting.erase asked ∨
          name ∈ (if s.db.exist asked then rewritten ++ [asked] else rewritten) := by
        by_cases hne : name = asked
        · subst hne
          right
          have hexist : s.db.exist name = true := decide_eq_true hentry
          rw [if_pos hexist]
          exact List.mem_append_right _ List.mem_cons_self
        · rcases hkeeps with hwaiting | hrewritten
          · exact Or.inl ((List.mem_erase_of_ne hne).mpr hwaiting)
          · right
            split
            · exact List.mem_append_left _ hrewritten
            · exact hrewritten
      right
      split
      · rename_i hempty
        rw [List.isEmpty_iff.mp hempty] at hleft
        exact keeps_afterRecheck (hleft.resolve_left List.not_mem_nil)
      · exact hleft
    · cases h
  · cases h

theorem kept_step {e : Event} (hs : name ∈ s.db.entries -> Kept s name)
    (h : step ns s e = some t) (hname : name ∈ t.db.entries) : Kept t name := by
  cases e with
  | set c key => exact kept_call hs h hname
  | del c key => exact kept_call hs h hname
  | delMany c keys => exact kept_call hs h hname
  | prune c => exact kept_call hs h hname
  | exec c => exact kept_exec hs h hname
  | execUnlink c unlinked => exact kept_execUnlink hs h hname
  | execExists c asked => exact kept_execExists hs h hname
  | execSscan c batch last =>
      simp only [step, execSscan] at h
      split at h
      · rename_i hc
        cases h
        have hkeeps : ¬ Keeps name (s.task c) := by
          rw [hc]
          exact id
        exact kept_command (holdsOn_idle hkeeps) hs hname
      · cases h
  | expire expired =>
      cases h
      exact hs (Finset.mem_of_mem_erase hname)

end Done

/-!
## Commands that fail
-/

section Failed

variable {ns name : Name} {s t : FaultyState} {c : Client} {applied : Bool}

theorem entries_attempted {before after : Db}
    (h : name ∈ (attempted applied before after).entries) :
    name ∈ before.entries ∨ (applied = true ∧ name ∈ after.entries) := by
  unfold attempted at h
  cases applied with
  | true => exact Or.inr ⟨rfl, h⟩
  | false => exact Or.inl h

theorem tracked_attempted_srem {db : Db} (members : List Name)
    (h : name ∈ db.tracked) :
    name ∈ (attempted applied db (db.srem members)).tracked ∨
      (applied = true ∧ name ∈ members) := by
  cases applied with
  | true => exact (tracked_srem members h).imp_right (fun hmem => ⟨rfl, hmem⟩)
  | false => exact Or.inl h

theorem tracked_attempted_sadd {db : Db} {members : List Name}
    (h : name ∈ db.tracked ∨ (applied = true ∧ name ∈ members)) :
    name ∈ (attempted applied db (db.sadd members)).tracked := by
  cases applied with
  | true => exact tracked_sadd (h.imp_right And.right)
  | false => exact h.resolve_right (fun h => Bool.false_ne_true h.left)

theorem kept_failExec (hs : name ∈ s.state.db.entries -> Kept s.state name)
    (hkept : ¬ LosesTask name (s.tried c) applied (s.state.task c))
    (h : failExec s c applied = some t) (hname : name ∈ t.state.db.entries) :
    Kept t.state name := by
  unfold failExec at h
  split at h
  · -- SET: it may have applied, and no SADD follows.
    rename_i n hc
    cases h
    rw [hc] at hkept
    refine kept_command ⟨?_, ?_, ?_⟩ hs hname
    · intro hentry
      rcases entries_attempted hentry with hold | ⟨happlied, hnew⟩
      · exact Or.inl hold
      · rcases Finset.mem_insert.mp hnew with heq | hold
        · exact absurd ⟨happlied, heq.symm⟩ hkept
        · exact Or.inl hold
    · intro _ htracked
      cases applied <;> exact Or.inl htracked
    · intro _ hkeeps
      rw [hc] at hkeeps
      exact hkeeps.elim
  · -- SADD of the write
    rename_i n hc
    cases h
    rw [hc] at hkept
    refine kept_command ⟨?_, ?_, ?_⟩ hs hname
    · intro hentry
      cases applied <;> exact Or.inl hentry
    · exact fun _ htracked => Or.inl (tracked_attempted_sadd (Or.inl htracked))
    · intro _ hkeeps
      rw [hc] at hkeeps
      cases happlied : applied with
      | true =>
          exact Or.inl (tracked_attempted_sadd
            (Or.inr ⟨rfl, List.mem_singleton.mpr hkeeps.symm⟩))
      | false => exact absurd ⟨happlied, hkeeps⟩ hkept
  · -- SREM of a delete
    rename_i n hc
    cases h
    rw [hc] at hkept
    refine kept_command ⟨?_, ?_, ?_⟩ hs hname
    · intro hentry
      cases applied <;> exact Or.inl hentry
    · intro _ htracked
      rcases tracked_attempted_srem [n] htracked with htracked | ⟨happlied, hmem⟩
      · exact Or.inl htracked
      · exact absurd ⟨happlied, (List.mem_singleton.mp hmem).symm⟩ hkept
    · intro _ hkeeps
      rw [hc] at hkeeps
      exact hkeeps.elim
  · -- UNLINK of a delete
    rename_i n hc
    cases h
    rw [hc] at hkept
    refine kept_command ⟨?_, ?_, ?_⟩ hs hname
    · intro hentry
      rcases entries_attempted hentry with hold | ⟨_, hnew⟩
      · exact Or.inl hold
      · exact Or.inl (Finset.mem_of_mem_erase hnew)
    · intro _ htracked
      cases applied <;> exact Or.inl htracked
    · intro hentry hkeeps
      rw [hc] at hkeeps
      cases happlied : applied with
      | true =>
          rw [happlied] at hentry
          exact absurd hkeeps.symm (Finset.ne_of_mem_erase hentry)
      | false => exact absurd ⟨happlied, hkeeps⟩ hkept
  · -- A chunk of a `delMany`: what comes after it stays tracked.
    rename_i untracked pending hc
    cases h
    rw [hc] at hkept
    refine kept_command ⟨?_, ?_, ?_⟩ hs hname
    · intro hentry
      cases applied <;> exact Or.inl hentry
    · intro _ htracked
      rcases tracked_attempted_srem _ htracked with htracked | hlost
      · exact Or.inl htracked
      · exact absurd (Or.inr hlost) hkept
    · intro _ hkeeps
      rw [hc] at hkeeps
      exact absurd (Or.inl hkeeps) hkept
  · -- SREM of the dead: it may have applied, and they are checked again.
    rename_i dead last hc
    cases h
    refine kept_command ⟨?_, ?_, ?_⟩ hs hname
    · intro hentry
      cases applied <;> exact Or.inl hentry
    · intro _ htracked
      exact (tracked_attempted_srem dead htracked).imp_right
        (fun hlost => Or.inl hlost.right)
    · intro _ hkeeps
      rw [hc] at hkeeps
      exact hkeeps.elim
  · -- One of the two SADDs of `retrack`
    rename_i rewritten last hc
    cases h
    rw [hc] at hkept
    refine kept_command ⟨?_, ?_, ?_⟩ hs hname
    · intro hentry
      cases applied <;> exact Or.inl hentry
    · exact fun _ htracked => Or.inl (tracked_attempted_sadd (Or.inl htracked))
    · intro _ hkeeps
      rw [hc] at hkeeps
      cases happlied : applied with
      | true => exact Or.inl (tracked_attempted_sadd (Or.inr ⟨rfl, hkeeps⟩))
      | false =>
          right
          split
          · rename_i htried
            exact absurd ⟨htried, happlied, hkeeps⟩ hkept
          · exact hkeeps
  · cases h

theorem kept_failUnlink {unlinked : Name}
    (hs : name ∈ s.state.db.entries -> Kept s.state name)
    (hkept : ¬ ((applied = false ∧ unlinked = name) ∨ exists batch rest,
      s.state.task c = Task.unlinkingMany batch rest ∧ name ∈ rest))
    (h : failUnlink s c unlinked applied = some t)
    (hname : name ∈ t.state.db.entries) : Kept t.state name := by
  unfold failUnlink at h
  split at h
  · rename_i batch rest hc
    split at h
    · cases h
      refine kept_command ⟨?_, ?_, ?_⟩ hs hname
      · intro hentry
        rcases entries_attempted hentry with hold | ⟨_, hnew⟩
        · exact Or.inl hold
        · exact Or.inl (Finset.mem_of_mem_erase hnew)
      · intro _ htracked
        cases applied <;> exact Or.inl htracked
      · intro hentry hkeeps
        rw [hc] at hkeeps
        have hne : name ≠ unlinked := by
          intro heq
          cases happlied : applied with
          | true =>
              rw [happlied] at hentry
              exact Finset.ne_of_mem_erase hentry heq
          | false => exact hkept (Or.inl ⟨happlied, heq.symm⟩)
        have hleft : name ∈ batch.erase unlinked := by
          rcases hkeeps with hbatch | hrest
          · exact (List.mem_erase_of_ne hne).mpr hbatch
          · exact absurd (Or.inr ⟨batch, rest, hc, hrest⟩) hkept
        right
        split
        · rename_i hempty
          rw [List.isEmpty_iff.mp hempty] at hleft
          exact absurd hleft List.not_mem_nil
        · exact Or.inl hleft
    · cases h
  · cases h

theorem kept_failExists {asked : Name}
    (hs : name ∈ s.state.db.entries -> Kept s.state name)
    (h : failExists s c asked = some t) (hname : name ∈ t.state.db.entries) :
    Kept t.state name := by
  unfold failExists at h
  split at h
  · rename_i waiting dead last hc
    split at h
    · cases h
      have hkeeps : ¬ Keeps name (s.state.task c) := by
        rw [hc]
        exact id
      exact kept_command (holdsOn_idle hkeeps) hs hname
    · cases h
  · rename_i waiting rewritten last hc
    split at h
    · cases h
      refine kept_command ⟨Or.inl, fun _ => Or.inl, ?_⟩ hs hname
      intro _ hkeeps
      rw [hc] at hkeeps
      have hleft : name ∈ waiting.erase asked ∨ name ∈ rewritten ++ [asked] := by
        by_cases hne : name = asked
        · right
          rw [hne]
          exact List.mem_append_right _ List.mem_cons_self
        · exact hkeeps.imp (List.mem_erase_of_ne hne).mpr
            (List.mem_append_left _)
      right
      split
      · rename_i hempty
        rw [List.isEmpty_iff.mp hempty] at hleft
        exact keeps_afterRecheck (hleft.resolve_left List.not_mem_nil)
      · exact hleft
    · cases h
  · cases h

theorem kept_faultyStep {e : FaultyEvent}
    (hs : name ∈ s.state.db.entries -> Kept s.state name)
    (hkept : ¬ Loses name s e) (h : faultyStep ns s e = some t)
    (hname : name ∈ t.state.db.entries) : Kept t.state name := by
  cases e with
  | done e =>
      rcases Option.map_eq_some_iff.mp h with ⟨u, hstep, rfl⟩
      exact kept_step hs hstep hname
  | failed e applied =>
      cases e with
      | exec c => exact kept_failExec hs hkept h hname
      | execUnlink c unlinked => exact kept_failUnlink hs hkept h hname
      | execExists c asked => exact kept_failExists hs h hname
      | execSscan c batch last =>
          simp only [faultyStep, failSscan] at h
          split at h
          · rename_i hc
            cases h
            have hkeeps : ¬ Keeps name (s.state.task c) := by
              rw [hc]
              exact id
            exact kept_command (holdsOn_idle hkeeps) hs hname
          · cases h
      | _ => cases h

/--
In a run in which no failure loses the name, from a state in which it is not
lost, a live entry is tracked or some client will still see to it.  When no
operation is in progress, `keys` lists it.
-/
theorem live_entry_kept {s₀ : FaultyState} {key : Name}
    (hstart : qualified ns key ∈ s₀.state.db.entries ->
      Kept s₀.state (qualified ns key))
    (hrun : Transition.Reaches (faultyStep ns)
      (fun s e => ¬ Loses (qualified ns key) s e) s₀ s)
    (hlive : qualified ns key ∈ s.state.db.entries) :
    Kept s.state (qualified ns key) ∧
      (Quiescent s.state -> key ∈ keys ns s.state) := by
  have hkept : Kept s.state (qualified ns key) :=
    @Transition.reaches_invariant _ _ (faultyStep ns)
      (fun s e => ¬ Loses (qualified ns key) s e)
      (fun s => qualified ns key ∈ s.state.db.entries ->
        Kept s.state (qualified ns key)) _ _ hstart
      (fun _ _ _ hinv hok hstep hname => kept_faultyStep hinv hok hstep hname)
      hrun hlive
  refine ⟨hkept, ?_⟩
  intro hquiet
  rcases hkept with htracked | ⟨c, hkeeps⟩
  · exact Finset.mem_image.mpr ⟨_, htracked, unqualified_qualified ns key⟩
  · rw [hquiet c] at hkeeps
    exact hkeeps.elim

end Failed

/-!
Up to the second SADD of `retrack` no failure of a prune pass loses a name.
-/

def isPruneFailure (s : FaultyState) : FaultyEvent -> Bool
  | FaultyEvent.done _ => true
  | FaultyEvent.failed (Event.exec c) _ =>
      match s.state.task c with
      | Task.untrackingDead _ _ => true
      | Task.retracking _ _ => !s.tried c
      | _ => false
  | FaultyEvent.failed (Event.execExists _ _) _ => true
  | FaultyEvent.failed (Event.execSscan _ _ _) _ => true
  | _ => false

theorem not_loses_of_isPruneFailure {name : Name} (s : FaultyState)
    (e : FaultyEvent) (h : isPruneFailure s e = true) : ¬ Loses name s e := by
  unfold isPruneFailure at h
  split at h
  · exact id
  · rename_i c applied
    show ¬ LosesTask name (s.tried c) applied (s.state.task c)
    split at h
    · rename_i hc
      rw [hc]
      exact id
    · rename_i hc
      rw [hc]
      intro hloses
      rw [hloses.left] at h
      exact Bool.false_ne_true h
    · exact absurd h Bool.false_ne_true
  · exact id
  · exact id
  · exact absurd h Bool.false_ne_true

def pruneThatFails : List FaultyEvent :=
  let key := "/a?".toList
  let name := "keyv:/a?".toList
  [FaultyEvent.done (Event.set 0 key), FaultyEvent.done (Event.exec 0),
    FaultyEvent.done (Event.exec 0), FaultyEvent.done (Event.expire name),
    FaultyEvent.done (Event.prune 1),
    FaultyEvent.done (Event.execSscan 1 [name] false),
    FaultyEvent.done (Event.execExists 1 name),
    FaultyEvent.done (Event.set 0 key), FaultyEvent.done (Event.exec 0),
    FaultyEvent.done (Event.exec 0), FaultyEvent.failed (Event.exec 1) true,
    FaultyEvent.failed (Event.execExists 1 name) true,
    FaultyEvent.failed (Event.exec 1) false, FaultyEvent.done (Event.exec 1),
    FaultyEvent.failed (Event.execSscan 1 [] true) true]

def prunedAmongFailures : FaultyState :=
  Transition.lastChecked (faultyStep "keyv".toList) isPruneFailure
    pruneThatFails FaultyState.init

theorem live_entry_kept_pruneThatFails :
    "keyv:/a?".toList ∈ prunedAmongFailures.state.db.entries ∧
      Kept prunedAmongFailures.state "keyv:/a?".toList := by
  have hrun : Transition.Reaches (faultyStep "keyv".toList)
      (fun s e => ¬ Loses (qualified "keyv".toList "/a?".toList) s e)
      FaultyState.init prunedAmongFailures :=
    Transition.reaches_lastChecked (fun _ _ _ _ _ _ => trivial)
      (fun s e (_ : True) h => not_loses_of_isPruneFailure s e h) trivial
      (by decide)
  have hlive : "keyv:/a?".toList ∈ prunedAmongFailures.state.db.entries := by
    decide
  exact ⟨hlive, (live_entry_kept (fun h => absurd h (by decide)) hrun hlive).left⟩

end Redis
end RestCache
