import RestCache.Redis.Tracking

/-!
# The commands of a prune pass

Seen from outside: which members a pass has still to decide on, which it is
putting back, and whether its scan is over.  One command moves a member from
the first to nowhere only if its entry exists or it leaves the tracking set.
-/

namespace RestCache
namespace Redis

def Pruning : Task -> Prop
  | Task.idle | Task.scanning | Task.checking _ _ _ => True
  | Task.untrackingDead _ _ | Task.rechecking _ _ _ => True
  | Task.retracking _ _ => True
  | _ => False

/-- The members a pass was given and has not decided on. -/
def ahead : Task -> List Name
  | Task.checking waiting dead _ => waiting ++ dead
  | Task.untrackingDead dead _ => dead
  | _ => []

/-- The members a pass has found alive after untracking them. -/
def putBack : Task -> List Name
  | Task.rechecking _ rewritten _ => rewritten
  | Task.retracking rewritten _ => rewritten
  | _ => []

/-- The last SSCAN reply has been seen. -/
def Ending : Task -> Prop
  | Task.idle => True
  | Task.checking _ _ last | Task.untrackingDead _ last => last = true
  | Task.rechecking _ _ last | Task.retracking _ last => last = true
  | _ => False

/--
One command of a pass, from the outside.  `batch` and `last` are what an SSCAN
returned, nothing for the other commands.
-/
structure PassStep (s t : State) (c : Client) (batch : List Name)
    (last : Bool) : Prop where
  busy : s.task c ≠ Task.idle
  pruning : Pruning (t.task c)
  entries : t.db.entries = s.db.entries
  tracked : forall name, name ∈ t.db.tracked ->
    name ∈ s.db.tracked ∨ name ∈ putBack (s.task c)
  putBack : forall name, name ∈ putBack (t.task c) ->
    name ∈ putBack (s.task c) ∨ name ∈ s.db.entries
  ahead : forall name, name ∈ batch ∨ name ∈ ahead (s.task c) ->
    name ∈ t.db.tracked -> name ∈ ahead (t.task c) ∨ name ∈ s.db.entries
  ending : Ending (t.task c) -> Ending (s.task c) ∨ last = true

theorem afterBatch_facts (last : Bool) :
    Pruning (afterBatch last) ∧ ahead (afterBatch last) = [] ∧
      putBack (afterBatch last) = [] ∧
      (Ending (afterBatch last) <-> last = true) := by
  cases last <;> simp [afterBatch, Pruning, ahead, putBack, Ending]

theorem afterCheck_facts (dead : List Name) (last : Bool) :
    Pruning (afterCheck dead last) ∧ ahead (afterCheck dead last) = dead ∧
      putBack (afterCheck dead last) = [] ∧
      (Ending (afterCheck dead last) <-> last = true) := by
  cases dead with
  | nil => exact afterBatch_facts last
  | cons head tail => simp [afterCheck, Pruning, ahead, putBack, Ending]

theorem afterRecheck_facts (rewritten : List Name) (last : Bool) :
    Pruning (afterRecheck rewritten last) ∧
      ahead (afterRecheck rewritten last) = [] ∧
      putBack (afterRecheck rewritten last) = rewritten ∧
      (Ending (afterRecheck rewritten last) <-> last = true) := by
  cases rewritten with
  | nil => exact afterBatch_facts last
  | cons head tail => simp [afterRecheck, Pruning, ahead, putBack, Ending]

theorem passStep_command {s : State} {c : Client} {batch : List Name}
    {last : Bool} {db : Db} {task : Task}
    (hbusy : s.task c ≠ Task.idle) (hpruning : Pruning task)
    (hentries : db.entries = s.db.entries)
    (htracked : forall name, name ∈ db.tracked ->
      name ∈ s.db.tracked ∨ name ∈ putBack (s.task c))
    (hputBack : forall name, name ∈ putBack task ->
      name ∈ putBack (s.task c) ∨ name ∈ s.db.entries)
    (hahead : forall name, name ∈ batch ∨ name ∈ ahead (s.task c) ->
      name ∈ db.tracked -> name ∈ ahead task ∨ name ∈ s.db.entries)
    (hending : Ending task -> Ending (s.task c) ∨ last = true) :
    PassStep s (s.command c db task) c batch last := by
  have htask : (s.command c db task).task c = task := by
    simp [State.command]
  constructor
  · exact hbusy
  · rw [htask]
    exact hpruning
  · exact hentries
  · exact htracked
  · rw [htask]
    exact hputBack
  · rw [htask]
    exact hahead
  · rw [htask]
    exact hending

theorem passStep_execSscan {s t : State} {c : Client} {batch : List Name}
    {last : Bool} (h : execSscan s c batch last = some t) :
    PassStep s t c batch last := by
  unfold execSscan at h
  split at h
  · rename_i htask
    cases h
    rcases afterBatch_facts last with ⟨hpruning, hahead, hputBack, hending⟩
    cases batch with
    | nil =>
        apply passStep_command
        · simp [htask]
        · exact hpruning
        · rfl
        · intro name hname
          exact Or.inl hname
        · simp [hputBack]
        · simp [htask, ahead]
        · intro hend
          exact Or.inr (hending.mp hend)
    | cons head tail =>
        apply passStep_command
        · simp [htask]
        · trivial
        · rfl
        · intro name hname
          exact Or.inl hname
        · simp [putBack]
        · intro name hname _
          left
          simpa [htask, ahead] using hname
        · intro hend
          exact Or.inr hend
  · cases h

theorem mem_checked {db : Db} {waiting dead : List Name} {asked name : Name}
    (hname : name ∈ waiting ++ dead) :
    name ∈ waiting.erase asked ∨
      name ∈ (if db.exist asked then dead else dead ++ [asked]) ∨
      name ∈ db.entries := by
  by_cases hne : name = asked
  · subst hne
    by_cases hlive : name ∈ db.entries
    · exact Or.inr (Or.inr hlive)
    · right
      left
      simp [Db.exist, hlive]
  · rcases List.mem_append.mp hname with hwaiting | hdead
    · exact Or.inl ((List.mem_erase_of_ne hne).mpr hwaiting)
    · right
      left
      split <;> simp [hdead]

theorem passStep_checked {s : State} {c : Client} {asked : Name}
    {waiting dead : List Name} {last : Bool}
    (htask : s.task c = Task.checking waiting dead last) :
    PassStep s
      (s.command c s.db
        (if (waiting.erase asked).isEmpty then
          afterCheck (if s.db.exist asked then dead else dead ++ [asked]) last
        else
          Task.checking (waiting.erase asked)
            (if s.db.exist asked then dead else dead ++ [asked]) last))
      c [] false := by
  rcases afterCheck_facts
    (if s.db.exist asked then dead else dead ++ [asked]) last with
    ⟨hpruning, hahead, hputBack, hending⟩
  apply passStep_command
  · simp [htask]
  · split
    · exact hpruning
    · trivial
  · rfl
  · intro name hname
    exact Or.inl hname
  · intro name hname
    split at hname
    · simp [hputBack] at hname
    · simp [putBack] at hname
  · intro name hname _
    rw [htask] at hname
    have hmoved := @mem_checked s.db waiting dead asked name
      (by simpa [ahead] using hname)
    rcases hmoved with h | h | h
    · left
      split
      · rename_i hempty
        rw [List.isEmpty_iff] at hempty
        rw [hempty] at h
        cases h
      · exact List.mem_append_left _ h
    · left
      split
      · rw [hahead]
        exact h
      · exact List.mem_append_right _ h
    · exact Or.inr h
  · intro hend
    left
    rw [htask]
    split at hend
    · exact hending.mp hend
    · exact hend

theorem mem_rechecked {db : Db} {rewritten : List Name} {asked name : Name}
    (hname : name ∈ (if db.exist asked then rewritten ++ [asked]
      else rewritten)) : name ∈ rewritten ∨ name ∈ db.entries := by
  split at hname
  · rename_i hlive
    rcases List.mem_append.mp hname with h | h
    · exact Or.inl h
    · right
      rw [List.mem_singleton.mp h]
      exact of_decide_eq_true hlive
  · exact Or.inl hname

theorem passStep_rechecked {s : State} {c : Client} {asked : Name}
    {waiting rewritten : List Name} {last : Bool}
    (htask : s.task c = Task.rechecking waiting rewritten last) :
    PassStep s
      (s.command c s.db
        (if (waiting.erase asked).isEmpty then
          afterRecheck
            (if s.db.exist asked then rewritten ++ [asked] else rewritten) last
        else
          Task.rechecking (waiting.erase asked)
            (if s.db.exist asked then rewritten ++ [asked] else rewritten) last))
      c [] false := by
  rcases afterRecheck_facts
    (if s.db.exist asked then rewritten ++ [asked] else rewritten) last with
    ⟨hpruning, hahead, hputBack, hending⟩
  apply passStep_command
  · simp [htask]
  · split
    · exact hpruning
    · trivial
  · rfl
  · intro name hname
    exact Or.inl hname
  · intro name hname
    rw [htask]
    apply mem_rechecked
    split at hname
    · rw [hputBack] at hname
      exact hname
    · exact hname
  · intro name hname _
    simp [htask, ahead] at hname
  · intro hend
    left
    rw [htask]
    split at hend
    · exact hending.mp hend
    · exact hend

theorem passStep_execExists {s t : State} {c : Client} {asked : Name}
    (h : execExists s c asked = some t) : PassStep s t c [] false := by
  unfold execExists at h
  split at h
  · rename_i waiting dead last htask
    split at h
    · cases h
      exact passStep_checked htask
    · cases h
  · rename_i waiting rewritten last htask
    split at h
    · cases h
      exact passStep_rechecked htask
    · cases h
  · cases h

theorem passStep_exec {s t : State} {c : Client} (hc : Pruning (s.task c))
    (h : exec s c = some t) : PassStep s t c [] false := by
  cases htask : s.task c with
  | untrackingDead dead last =>
      simp only [exec, htask, Option.some.injEq] at h
      subst h
      apply passStep_command
      · simp [htask]
      · trivial
      · rfl
      · intro name hname
        exact Or.inl (Finset.mem_sdiff.mp hname).left
      · simp [putBack]
      · -- What was ahead of the SREM has now left the set.
        intro name hname htracked
        simp only [htask, ahead, List.not_mem_nil, false_or] at hname
        simp [Db.srem, hname] at htracked
      · intro hend
        left
        rw [htask]
        exact hend
  | retracking rewritten last =>
      simp only [exec, htask, Option.some.injEq] at h
      subst h
      rcases afterBatch_facts last with ⟨hpruning, hahead, hputBack, hending⟩
      apply passStep_command
      · simp [htask]
      · exact hpruning
      · rfl
      · intro name hname
        rcases Finset.mem_union.mp hname with hold | hnew
        · exact Or.inl hold
        · right
          rw [htask]
          exact List.mem_toFinset.mp hnew
      · simp [hputBack]
      · simp [htask, ahead]
      · intro hend
        left
        rw [htask]
        exact hending.mp hend
  | idle => simp [exec, htask] at h
  | scanning => simp [exec, htask] at h
  | checking waiting dead last => simp [exec, htask] at h
  | rechecking waiting rewritten last => simp [exec, htask] at h
  | _ => simp [htask, Pruning] at hc

end Redis
end RestCache
