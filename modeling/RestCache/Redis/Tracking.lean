import RestCache.Redis.Cluster

/-!
# No live entry escapes the tracking set

The order inside each pair of commands was chosen so that losing a race is
harmless.  The invariant says why: an entry that exists is tracked, or some
client still owes it a SADD or an UNLINK, or a prune pass has untracked it and
has yet to re-check it.
-/

namespace RestCache
namespace Redis

open Foundation

/--
The client will track the name again, unlink its entry, or look once more
whether the entry exists, before its operation ends.
-/
def Owes (name : Name) : Task -> Prop
  | Task.tracking n => n = name
  | Task.untracking n => n = name
  | Task.unlinking n => n = name
  | Task.untrackingMany untracked pending =>
      name ∈ untracked ∨ name ∈ pending
  | Task.unlinkingMany batch rest => name ∈ batch ∨ name ∈ rest
  | Task.rechecking waiting rewritten _ =>
      name ∈ waiting ∨ name ∈ rewritten
  | Task.retracking rewritten _ => name ∈ rewritten
  | _ => False

/-- A name that is tracked, or that some client still owes a command. -/
def Covered (s : State) (name : Name) : Prop :=
  name ∈ s.db.tracked ∨ exists c, Owes name (s.task c)

def Tracking (s : State) : Prop :=
  forall name, name ∈ s.db.entries -> Covered s name

/-!
## What the remaining commands owe
-/

theorem owes_nextUnlinks {name : Name} {rest : List Name} :
    Owes name (nextUnlinks rest) <-> name ∈ rest := by
  unfold nextUnlinks
  cases rest with
  | nil => simp [Owes]
  | cons head tail =>
      have hsplit := List.take_append_drop CONCURRENCY (head :: tail)
      rw [if_neg (by simp)]
      change name ∈ _ ∨ name ∈ _ <-> _
      rw [← List.mem_append, hsplit]

theorem owes_nextSrem {name : Name} {untracked pending : List Name} :
    Owes name (nextSrem untracked pending) <->
      name ∈ untracked ∨ name ∈ pending := by
  unfold nextSrem
  cases pending with
  | nil => simpa using owes_nextUnlinks
  | cons head tail => simp [Owes]

theorem not_owes_afterBatch {name : Name} {last : Bool} :
    ¬ Owes name (afterBatch last) := by
  cases last <;> simp [afterBatch, Owes]

theorem owes_afterRecheck {name : Name} {rewritten : List Name} {last : Bool} :
    Owes name (afterRecheck rewritten last) <-> name ∈ rewritten := by
  unfold afterRecheck
  cases rewritten with
  | nil => simpa using not_owes_afterBatch
  | cons head tail => simp [Owes]

/-!
## Commands

A command of one client leaves what the other clients owe as it was.  It is
therefore enough to account for the names the client itself owed, and for the
names that the command wrote or untracked.
-/

theorem covered_command {s : State} {c : Client} {db : Db} {task : Task}
    {name : Name}
    (hcov : Covered s name)
    (htracked : name ∈ s.db.tracked -> name ∈ db.tracked ∨ Owes name task)
    (howes : Owes name (s.task c) -> name ∈ db.tracked ∨ Owes name task) :
    Covered (s.command c db task) name := by
  have hself : name ∈ db.tracked ∨ Owes name task ->
      Covered (s.command c db task) name := by
    intro h
    rcases h with h | h
    · exact Or.inl h
    · exact Or.inr ⟨c, by simpa [State.command] using h⟩
  rcases hcov with h | ⟨d, h⟩
  · exact hself (htracked h)
  · by_cases hd : d = c
    · subst hd
      exact hself (howes h)
    · exact Or.inr ⟨d, by simpa [State.command, hd] using h⟩

theorem tracking_command {s : State} {c : Client} {db : Db} {task : Task}
    (hinv : Tracking s)
    (hentries : forall name, name ∈ db.entries ->
      name ∈ s.db.entries ∨ name ∈ db.tracked ∨ Owes name task)
    (htracked : forall name, name ∈ db.entries -> name ∈ s.db.tracked ->
      name ∈ db.tracked ∨ Owes name task)
    (howes : forall name, name ∈ db.entries -> Owes name (s.task c) ->
      name ∈ db.tracked ∨ Owes name task) :
    Tracking (s.command c db task) := by
  intro name hname
  rcases hentries name hname with hold | hnew | hnew
  · exact covered_command (hinv name hold) (htracked name hname)
      (howes name hname)
  · exact Or.inl hnew
  · exact Or.inr ⟨c, by simpa [State.command] using hnew⟩

theorem tracking_call {s t : State} {c : Client} {task : Task}
    (hinv : Tracking s) (h : call s c task = some t) : Tracking t := by
  unfold call at h
  split at h
  · rename_i hidle
    cases h
    apply tracking_command hinv
    · intro name hname
      exact Or.inl hname
    · intro name _ htracked
      exact Or.inl htracked
    · intro name _ howes
      simp [hidle, Owes] at howes
  · cases h

theorem tracking_exec {s t : State} {c : Client}
    (hinv : Tracking s) (h : exec s c = some t) : Tracking t := by
  unfold exec at h
  split at h
  · -- SET: the SADD of the same write is still to come.
    rename_i n hc
    cases h
    apply tracking_command hinv
    · intro name hname
      rcases Finset.mem_insert.mp hname with hn | hold
      · exact Or.inr (Or.inr hn.symm)
      · exact Or.inl hold
    · intro name _ htracked
      exact Or.inl htracked
    · intro name _ howes
      simp [hc, Owes] at howes
  · rename_i n hc
    cases h
    apply tracking_command hinv
    · intro name hname
      exact Or.inl hname
    · intro name _ htracked
      exact Or.inl (by simp [Db.sadd, htracked])
    · intro name _ howes
      simp only [hc, Owes] at howes
      exact Or.inl (by simp [Db.sadd, howes])
  · -- SREM of a delete: the UNLINK of the same delete is still to come.
    rename_i n hc
    cases h
    apply tracking_command hinv
    · intro name hname
      exact Or.inl hname
    · intro name _ htracked
      by_cases hn : n = name
      · exact Or.inr hn
      · exact Or.inl (by simp [Db.srem, htracked, Ne.symm hn])
    · intro name _ howes
      simp only [hc, Owes] at howes
      exact Or.inr howes
  · rename_i n hc
    cases h
    apply tracking_command hinv
    · intro name hname
      exact Or.inl (Finset.mem_of_mem_erase hname)
    · intro name _ htracked
      exact Or.inl htracked
    · intro name hname howes
      simp only [hc, Owes] at howes
      exact absurd howes.symm (Finset.ne_of_mem_erase hname)
  · -- A chunk of SREMs: every key of the batch is unlinked afterwards.
    rename_i untracked pending hc
    cases h
    have hsplit := List.take_append_drop SREM_CHUNK pending
    apply tracking_command hinv
    · intro name hname
      exact Or.inl hname
    · intro name _ htracked
      by_cases hn : name ∈ pending.take SREM_CHUNK
      · exact Or.inr (owes_nextSrem.mpr (Or.inl (by simp [hn])))
      · exact Or.inl (by simp [Db.srem, htracked, hn])
    · intro name _ howes
      simp only [hc, Owes] at howes
      rw [← hsplit, List.mem_append] at howes
      right
      rw [owes_nextSrem, List.mem_append]
      tauto
  · -- SREM of the dead: each of them is checked once more.
    rename_i dead last hc
    cases h
    apply tracking_command hinv
    · intro name hname
      exact Or.inl hname
    · intro name _ htracked
      by_cases hn : name ∈ dead
      · exact Or.inr (Or.inl hn)
      · exact Or.inl (by simp [Db.srem, htracked, hn])
    · intro name _ howes
      simp [hc, Owes] at howes
  · rename_i rewritten last hc
    cases h
    apply tracking_command hinv
    · intro name hname
      exact Or.inl hname
    · intro name _ htracked
      exact Or.inl (by simp [Db.sadd, htracked])
    · intro name _ howes
      simp only [hc, Owes] at howes
      exact Or.inl (by simp [Db.sadd, howes])
  · cases h

theorem tracking_execUnlink {s t : State} {c : Client} {unlinked : Name}
    (hinv : Tracking s) (h : execUnlink s c unlinked = some t) :
    Tracking t := by
  unfold execUnlink at h
  split at h
  · rename_i batch rest hc
    split at h
    · cases h
      have howesAfter : forall name, name ≠ unlinked ->
          (name ∈ batch ∨ name ∈ rest) ->
          Owes name (if (batch.erase unlinked).isEmpty then nextUnlinks rest
            else Task.unlinkingMany (batch.erase unlinked) rest) := by
        intro name hne hmem
        have hleft : name ∈ batch -> name ∈ batch.erase unlinked :=
          (List.mem_erase_of_ne hne).mpr
        split
        · rename_i hempty
          rw [List.isEmpty_iff] at hempty
          rw [owes_nextUnlinks]
          rcases hmem with hbatch | hrest
          · have hnil := hleft hbatch
            rw [hempty] at hnil
            cases hnil
          · exact hrest
        · exact hmem.imp hleft id
      apply tracking_command hinv
      · intro name hname
        exact Or.inl (Finset.mem_of_mem_erase hname)
      · intro name _ htracked
        exact Or.inl htracked
      · intro name hname howes
        simp only [hc, Owes] at howes
        exact Or.inr (howesAfter name (Finset.ne_of_mem_erase hname) howes)
    · cases h
  · cases h

theorem tracking_execExists {s t : State} {c : Client} {asked : Name}
    (hinv : Tracking s) (h : execExists s c asked = some t) : Tracking t := by
  unfold execExists at h
  split at h
  · rename_i waiting dead last hc
    split at h
    · cases h
      apply tracking_command hinv
      · intro name hname
        exact Or.inl hname
      · intro name _ htracked
        exact Or.inl htracked
      · intro name _ howes
        simp [hc, Owes] at howes
    · cases h
  · -- The re-check: a name that is dropped here had no entry at this moment.
    rename_i waiting rewritten last hc
    split at h
    · cases h
      have howesAfter : forall name, name ∈ s.db.entries ->
          (name ∈ waiting ∨ name ∈ rewritten) ->
          name ∈ waiting.erase asked ∨
            name ∈ (if s.db.exist asked then rewritten ++ [asked]
              else rewritten) := by
        intro name hname hmem
        by_cases hne : name = asked
        · subst hne
          right
          simp [Db.exist, hname]
        · rcases hmem with hwaiting | hrewritten
          · exact Or.inl ((List.mem_erase_of_ne hne).mpr hwaiting)
          · right
            split <;> simp [hrewritten]
      apply tracking_command hinv
      · intro name hname
        exact Or.inl hname
      · intro name _ htracked
        exact Or.inl htracked
      · intro name hname howes
        simp only [hc, Owes] at howes
        have hafter := howesAfter name hname howes
        right
        split
        · rename_i hempty
          rw [List.isEmpty_iff] at hempty
          rw [hempty] at hafter
          rw [owes_afterRecheck]
          rcases hafter with hnil | hrewritten
          · cases hnil
          · exact hrewritten
        · exact hafter
    · cases h
  · cases h

theorem tracking_execSscan {s t : State} {c : Client} {batch : List Name}
    {last : Bool}
    (hinv : Tracking s) (h : execSscan s c batch last = some t) :
    Tracking t := by
  unfold execSscan at h
  split at h
  · rename_i hc
    cases h
    apply tracking_command hinv
    · intro name hname
      exact Or.inl hname
    · intro name _ htracked
      exact Or.inl htracked
    · intro name _ howes
      simp [hc, Owes] at howes
  · cases h

/-!
## Whole runs
-/

theorem tracking_step {ns : Name} {s t : State} {e : Event}
    (hinv : Tracking s) (h : step ns s e = some t) : Tracking t := by
  cases e with
  | set c key => exact tracking_call hinv h
  | del c key => exact tracking_call hinv h
  | delMany c keys => exact tracking_call hinv h
  | prune c => exact tracking_call hinv h
  | exec c => exact tracking_exec hinv h
  | execUnlink c name => exact tracking_execUnlink hinv h
  | execExists c name => exact tracking_execExists hinv h
  | execSscan c batch last => exact tracking_execSscan hinv h
  | expire expired =>
      cases h
      intro name hname
      exact hinv name (Finset.mem_of_mem_erase hname)

theorem tracking_reaches {ns : Name} {s : State}
    (h : Transition.Reaches (step ns) Transition.Any State.init s) :
    Tracking s := by
  apply Transition.reaches_invariant _ _ h
  · intro name hname
    simp [State.init, Db.empty] at hname
  · intro a e b hinv _ hstep
    exact tracking_step hinv hstep

def Quiescent (s : State) : Prop :=
  forall c, s.task c = Task.idle

theorem quiescent_entries_tracked (ns : Name) (s : State)
    (hrun : Transition.Reaches (step ns) Transition.Any State.init s)
    (hquiet : Quiescent s) :
    s.db.entries ⊆ s.db.tracked ∧
      forall key, qualified ns key ∈ s.db.entries -> key ∈ keys ns s := by
  have hsub : s.db.entries ⊆ s.db.tracked := by
    intro name hname
    rcases tracking_reaches hrun name hname with htracked | ⟨c, howes⟩
    · exact htracked
    · simp [hquiet c, Owes] at howes
  constructor
  · exact hsub
  · intro key hkey
    apply Finset.mem_image.mpr
    exact ⟨qualified ns key, hsub hkey, unqualified_qualified ns key⟩

/-!
A client that no event names is left alone, so whether a run ends quiescent is
a question about the clients it names.
-/

def Event.client : Event -> Option Client
  | Event.set c _ | Event.del c _ | Event.delMany c _ | Event.prune c => some c
  | Event.exec c | Event.execUnlink c _ | Event.execExists c _ => some c
  | Event.execSscan c _ _ => some c
  | Event.expire _ => none

theorem call_eq_command {s t : State} {c : Client} {task : Task}
    (h : call s c task = some t) :
    exists db rest, t = s.command c db rest := by
  unfold call at h
  split at h <;> cases h
  exact ⟨_, _, rfl⟩

theorem step_eq_command {ns : Name} {s t : State} {e : Event}
    (h : step ns s e = some t) :
    (exists name, t = { s with db := s.db.unlink name }) ∨
      exists c db rest, e.client = some c ∧ t = s.command c db rest := by
  cases e with
  | expire name =>
      cases h
      exact Or.inl ⟨name, rfl⟩
  | set c key =>
      rcases call_eq_command h with ⟨db, rest, ht⟩
      exact Or.inr ⟨c, db, rest, rfl, ht⟩
  | del c key =>
      rcases call_eq_command h with ⟨db, rest, ht⟩
      exact Or.inr ⟨c, db, rest, rfl, ht⟩
  | delMany c keys =>
      rcases call_eq_command h with ⟨db, rest, ht⟩
      exact Or.inr ⟨c, db, rest, rfl, ht⟩
  | prune c =>
      rcases call_eq_command h with ⟨db, rest, ht⟩
      exact Or.inr ⟨c, db, rest, rfl, ht⟩
  | exec c =>
      simp only [step, exec] at h
      split at h <;> cases h <;> exact Or.inr ⟨c, _, _, rfl, rfl⟩
  | execUnlink c name =>
      simp only [step, execUnlink] at h
      split at h
      · split at h <;> cases h
        exact Or.inr ⟨c, _, _, rfl, rfl⟩
      · cases h
  | execExists c name =>
      simp only [step, execExists] at h
      split at h
      · split at h <;> cases h
        exact Or.inr ⟨c, _, _, rfl, rfl⟩
      · split at h <;> cases h
        exact Or.inr ⟨c, _, _, rfl, rfl⟩
      · cases h
  | execSscan c batch last =>
      simp only [step, execSscan] at h
      split at h <;> cases h
      exact Or.inr ⟨c, _, _, rfl, rfl⟩

theorem step_task_of_ne {ns : Name} {s t : State} {e : Event} {c : Client}
    (hne : e.client ≠ some c) (h : step ns s e = some t) :
    t.task c = s.task c := by
  rcases step_eq_command h with ⟨name, ht⟩ | ⟨d, db, rest, hd, ht⟩
  · rw [ht]
  · have hcd : c ≠ d := by
      intro hcd
      exact hne (by rw [hd, hcd])
    simp [ht, State.command, hcd]

theorem exec_task_of_ne {ns : Name} {events : List Event} {s t : State}
    {c : Client}
    (hne : forall e, e ∈ events -> e.client ≠ some c)
    (h : Transition.exec (step ns) events s = some t) :
    t.task c = s.task c := by
  induction events generalizing s with
  | nil =>
      simp only [Transition.exec, Option.some.injEq] at h
      rw [h]
  | cons e rest ih =>
      cases hstep : step ns s e with
      | none => simp [Transition.exec, hstep] at h
      | some u =>
          simp only [Transition.exec, hstep, Option.bind_some] at h
          rw [ih (fun e' he' => hne e' (List.mem_cons_of_mem e he')) h]
          exact step_task_of_ne (hne e List.mem_cons_self) hstep

/-!
## Clients that only write

The commands of a write, seen from outside: the SET makes an entry whose SADD
is still to come, and the SADD tracks one name.
-/

def Writing : Task -> Prop
  | Task.idle | Task.setting _ | Task.tracking _ => True
  | _ => False

def Writes : Event -> Prop
  | Event.set _ _ | Event.exec _ | Event.expire _ => True
  | _ => False

def saddOf (s : State) : Event -> Finset Name
  | Event.exec c =>
      match s.task c with
      | Task.tracking name => {name}
      | _ => ∅
  | _ => ∅

structure Wrote (added : Finset Name) (s t : State) : Prop where
  tracked : t.db.tracked = s.db.tracked ∪ added
  writing : forall c, Writing (t.task c)
  entries : forall name, name ∈ t.db.entries -> name ∈ s.db.entries ∨
    exists c, t.task c = Task.tracking name
  tracking : forall c name, s.task c = Task.tracking name ->
    name ∈ added ∨ t.task c = Task.tracking name

theorem wrote_command {s : State} {c : Client} {db : Db} {task : Task}
    {added : Finset Name}
    (hwriting : forall c, Writing (s.task c)) (htask : Writing task)
    (htracked : db.tracked = s.db.tracked ∪ added)
    (hentries : forall name, name ∈ db.entries ->
      name ∈ s.db.entries ∨ task = Task.tracking name)
    (hc : forall name, s.task c = Task.tracking name -> name ∈ added) :
    Wrote added s (s.command c db task) := by
  constructor
  · exact htracked
  · intro d
    by_cases hd : d = c
    · simpa [State.command, hd] using htask
    · simpa [State.command, hd] using hwriting d
  · intro name hname
    rcases hentries name hname with hold | hnew
    · exact Or.inl hold
    · exact Or.inr ⟨c, by simpa [State.command] using hnew⟩
  · intro d name hd
    by_cases hne : d = c
    · exact Or.inl (hc name (hne ▸ hd))
    · right
      simpa [State.command, hne] using hd

theorem exec_writing {s t : State} {c : Client} (hc : Writing (s.task c))
    (h : exec s c = some t) :
    (exists name, s.task c = Task.setting name ∧
      t = s.command c (s.db.set name) (Task.tracking name)) ∨
    (exists name, s.task c = Task.tracking name ∧
      t = s.command c (s.db.sadd [name]) Task.idle) := by
  cases htask : s.task c with
  | setting name =>
      simp only [exec, htask, Option.some.injEq] at h
      exact Or.inl ⟨name, rfl, h.symm⟩
  | tracking name =>
      simp only [exec, htask, Option.some.injEq] at h
      exact Or.inr ⟨name, rfl, h.symm⟩
  | idle => simp [exec, htask] at h
  | _ => simp [htask, Writing] at hc

theorem wrote_step {ns : Name} {s t : State} {e : Event}
    (hwriting : forall c, Writing (s.task c)) (hwrites : Writes e)
    (h : step ns s e = some t) : Wrote (saddOf s e) s t := by
  cases e with
  | set c key =>
      simp only [step, call] at h
      split at h
      · rename_i hidle
        cases h
        apply wrote_command hwriting
        · trivial
        · simp [saddOf]
        · intro name hname
          exact Or.inl hname
        · intro name hc
          rw [hidle] at hc
          cases hc
      · cases h
  | exec c =>
      rcases exec_writing (hwriting c) h with
        ⟨written, htask, ht⟩ | ⟨written, htask, ht⟩
      · -- SET: the SADD of the same write is still to come.
        subst ht
        apply wrote_command hwriting
        · trivial
        · simp [saddOf, htask, Db.set]
        · intro name hname
          rcases Finset.mem_insert.mp hname with heq | hold
          · exact Or.inr (by rw [heq])
          · exact Or.inl hold
        · intro name hc
          rw [htask] at hc
          cases hc
      · subst ht
        apply wrote_command hwriting
        · trivial
        · simp [saddOf, htask, Db.sadd]
        · intro name hname
          exact Or.inl hname
        · intro name hc
          rw [htask] at hc
          cases hc
          simp [saddOf, htask]
  | expire name =>
      cases h
      constructor
      · simp [saddOf, Db.unlink]
      · exact hwriting
      · intro other hother
        exact Or.inl (Finset.mem_of_mem_erase hother)
      · intro c other hc
        exact Or.inr hc
  | _ => exact absurd hwrites id

/-!
The race the second round of EXISTS is for: the entry expires, a prune pass
finds it dead, a new write lands, and only then does the pass untrack it.
-/

def rewriteDuringPrune : List Event :=
  let key := "/api/a?&&".toList
  let name := "keyv:/api/a?&&".toList
  [Event.set 0 key, Event.exec 0, Event.exec 0, Event.expire name,
    Event.prune 1, Event.execSscan 1 [name] true, Event.execExists 1 name,
    Event.set 0 key, Event.exec 0, Event.exec 0, Event.exec 1,
    Event.execExists 1 name, Event.exec 1]

theorem quiescent_entries_tracked_rewriteDuringPrune :
    let s := Transition.last (step "keyv".toList) rewriteDuringPrune State.init
    "keyv:/api/a?&&".toList ∈ s.db.entries ∧
      s.db.entries ⊆ s.db.tracked ∧
      "/api/a?&&".toList ∈ keys "keyv".toList s := by
  intro s
  have hsome : (Transition.exec (step "keyv".toList) rewriteDuringPrune
      State.init).isSome = true := by
    decide
  have hquiet : Quiescent s := by
    intro c
    by_cases h0 : c = 0
    · rw [h0]
      decide
    · by_cases h1 : c = 1
      · rw [h1]
        decide
      · apply exec_task_of_ne _ (Transition.exec_last hsome)
        intro e he
        simp only [rewriteDuringPrune, List.mem_cons, List.not_mem_nil,
          or_false] at he
        rcases he with he | he | he | he | he | he | he | he | he | he | he |
          he | he <;> simp [he, Event.client, Ne.symm h0, Ne.symm h1]
  have hentry : "keyv:/api/a?&&".toList ∈ s.db.entries := by
    decide
  rcases quiescent_entries_tracked "keyv".toList s
    (Transition.reaches_last hsome) hquiet with ⟨hsub, hkeys⟩
  exact ⟨hentry, hsub, hkeys _ hentry⟩

end Redis
end RestCache
