import RestCache.Redis.Tracking

/-!
# A purge among other clients

A purge lists the tracking set and then deletes what it matched, command by
command, while other clients go on writing, deleting and pruning.  Whatever they
do, an entry that was there and settled when the set was listed is gone when the
purge ends, unless someone wrote it again.
-/

namespace RestCache
namespace Redis

open Foundation

/-!
## Writes of a name
-/

def SetsName (name : Name) (s : State) : Event -> Prop
  | Event.exec c => s.task c = Task.setting name
  | _ => False

section Entries

variable {ns name : Name} {s t : State} {c : Client}

theorem entries_exec (h : exec s c = some t) (hname : name ∈ t.db.entries) :
    name ∈ s.db.entries ∨ s.task c = Task.setting name := by
  unfold exec at h
  split at h
  · -- SET
    rename_i n hc
    cases h
    rcases Finset.mem_insert.mp hname with rfl | hold
    · exact Or.inr hc
    · exact Or.inl hold
  · cases h
    exact Or.inl hname
  · cases h
    exact Or.inl hname
  · cases h
    exact Or.inl (Finset.mem_of_mem_erase hname)
  · cases h
    exact Or.inl hname
  · cases h
    exact Or.inl hname
  · cases h
    exact Or.inl hname
  · cases h

theorem entries_call {task : Task} (h : call s c task = some t)
    (hname : name ∈ t.db.entries) : name ∈ s.db.entries := by
  unfold call at h
  split at h <;> cases h
  exact hname

theorem entries_step {e : Event} (h : step ns s e = some t)
    (hname : name ∈ t.db.entries) :
    name ∈ s.db.entries ∨ SetsName name s e := by
  cases e with
  | set c key => exact Or.inl (entries_call h hname)
  | del c key => exact Or.inl (entries_call h hname)
  | delMany c keys => exact Or.inl (entries_call h hname)
  | prune c => exact Or.inl (entries_call h hname)
  | exec c => exact entries_exec h hname
  | execUnlink c unlinked =>
      simp only [step, execUnlink] at h
      split at h
      · split at h <;> cases h
        exact Or.inl (Finset.mem_of_mem_erase hname)
      · cases h
  | execExists c asked =>
      simp only [step, execExists] at h
      split at h
      · split at h <;> cases h
        exact Or.inl hname
      · split at h <;> cases h
        exact Or.inl hname
      · cases h
  | execSscan c batch last =>
      simp only [step, execSscan] at h
      split at h <;> cases h
      exact Or.inl hname
  | expire expired =>
      cases h
      exact Or.inl (Finset.mem_of_mem_erase hname)

end Entries

/-!
## One `delMany`

Its task names what is still to be unlinked.  Each of its own commands shortens
what is left, and no other client can touch it.
-/

inductive Deleting : Task -> Prop
  | untracking (untracked pending : List Name) (hpending : pending ≠ []) :
      Deleting (Task.untrackingMany untracked pending)
  | unlinking (batch rest : List Name) (hbatch : batch ≠ []) :
      Deleting (Task.unlinkingMany batch rest)
  | ended : Deleting Task.idle

/-- A bound for the commands that are still to be sent. -/
def left : Task -> Nat
  | Task.untrackingMany untracked pending =>
      pending.length + (untracked.length + pending.length)
  | Task.unlinkingMany batch rest => batch.length + rest.length
  | _ => 0

theorem nextUnlinks_deleting (rest : List Name) :
    Deleting (nextUnlinks rest) ∧ left (nextUnlinks rest) = rest.length := by
  unfold nextUnlinks
  cases rest with
  | nil => exact ⟨Deleting.ended, rfl⟩
  | cons head tail =>
      rw [if_neg (by simp)]
      refine ⟨Deleting.unlinking _ _ ?_, ?_⟩
      · simp [CONCURRENCY]
      · show ((head :: tail).take CONCURRENCY).length +
          ((head :: tail).drop CONCURRENCY).length = _
        rw [← List.length_append, List.take_append_drop]

theorem nextSrem_deleting (untracked pending : List Name) :
    Deleting (nextSrem untracked pending) ∧
      left (nextSrem untracked pending) =
        pending.length + (untracked.length + pending.length) := by
  unfold nextSrem
  cases pending with
  | nil =>
      rw [if_pos (by rfl)]
      rcases nextUnlinks_deleting untracked with ⟨hdeleting, hleft⟩
      refine ⟨hdeleting, ?_⟩
      rw [hleft]
      simp
  | cons head tail =>
      rw [if_neg (by simp)]
      exact ⟨Deleting.untracking _ _ (List.cons_ne_nil _ _), rfl⟩

structure Deletes (name : Name) (s t : State) (c : Client) : Prop where
  deleting : Deleting (t.task c)
  left : left (t.task c) < left (s.task c)
  owes : Owes name (s.task c) ->
    Owes name (t.task c) ∨ name ∉ t.db.entries

section Commands

variable {ns name : Name} {s t : State} {c : Client}

theorem deletes_exec {untracked pending : List Name}
    (hc : s.task c = Task.untrackingMany untracked pending)
    (hpending : pending ≠ []) (h : exec s c = some t) : Deletes name s t c := by
  have hsplit := List.take_append_drop SREM_CHUNK pending
  have htask : t.task c = nextSrem (untracked ++ pending.take SREM_CHUNK)
      (pending.drop SREM_CHUNK) := by
    simp only [exec, hc, Option.some.injEq] at h
    simp [← h, State.command]
  rcases nextSrem_deleting (untracked ++ pending.take SREM_CHUNK)
    (pending.drop SREM_CHUNK) with ⟨hdeleting, hleft⟩
  have hlength : pending.length ≠ 0 :=
    fun h => hpending (List.length_eq_zero_iff.mp h)
  refine ⟨htask ▸ hdeleting, ?_, ?_⟩
  · rw [htask, hleft, hc]
    simp only [left, List.length_append, List.length_drop, List.length_take,
      SREM_CHUNK]
    omega
  · intro howes
    rw [hc] at howes
    rw [htask, owes_nextSrem, List.mem_append]
    have hmem : name ∈ untracked ∨ name ∈ pending := howes
    rw [← hsplit, List.mem_append] at hmem
    tauto

theorem deletes_execUnlink {batch rest : List Name} {unlinked : Name}
    (hc : s.task c = Task.unlinkingMany batch rest)
    (h : execUnlink s c unlinked = some t) : Deletes name s t c := by
  simp only [execUnlink, hc] at h
  split at h
  · rename_i hin
    cases h
    have hlength : (batch.erase unlinked).length < batch.length := by
      rw [List.length_erase_of_mem hin]
      have hpos := List.length_pos_of_mem hin
      omega
    have hself : (s.command c (s.db.unlink unlinked)
        (if (batch.erase unlinked).isEmpty then nextUnlinks rest
          else Task.unlinkingMany (batch.erase unlinked) rest)).task c =
        if (batch.erase unlinked).isEmpty then nextUnlinks rest
          else Task.unlinkingMany (batch.erase unlinked) rest := by
      simp [State.command]
    have howes : name ≠ unlinked -> name ∈ batch ∨ name ∈ rest ->
        name ∈ batch.erase unlinked ∨ name ∈ rest := by
      intro hne hmem
      exact hmem.imp_left (List.mem_erase_of_ne hne).mpr
    by_cases hempty : (batch.erase unlinked).isEmpty = true
    · rw [if_pos hempty] at hself ⊢
      rcases nextUnlinks_deleting rest with ⟨hdeleting, hleft⟩
      refine ⟨?_, ?_, ?_⟩
      · rw [hself]
        exact hdeleting
      · rw [hself, hleft, hc]
        show rest.length < batch.length + rest.length
        omega
      · intro hname
        rw [hc] at hname
        rw [hself, owes_nextUnlinks]
        by_cases hne : name = unlinked
        · exact Or.inr (hne ▸ Finset.notMem_erase unlinked s.db.entries)
        · apply Or.inl
          rcases howes hne hname with hgone | hrest
          · rw [List.isEmpty_iff.mp hempty] at hgone
            exact absurd hgone List.not_mem_nil
          · exact hrest
    · rw [if_neg hempty] at hself ⊢
      refine ⟨?_, ?_, ?_⟩
      · rw [hself]
        exact Deleting.unlinking _ _
          (fun hnil => hempty (List.isEmpty_iff.mpr hnil))
      · rw [hself, hc]
        show (batch.erase unlinked).length + rest.length <
          batch.length + rest.length
        omega
      · intro hname
        rw [hc] at hname
        rw [hself]
        by_cases hne : name = unlinked
        · exact Or.inr (hne ▸ Finset.notMem_erase unlinked s.db.entries)
        · exact Or.inl (howes hne hname)
  · cases h

theorem deletes_step {e : Event} (hclient : e.client = some c)
    (hdeleting : Deleting (s.task c)) (hbusy : s.task c ≠ Task.idle)
    (h : step ns s e = some t) : Deletes name s t c := by
  cases hc : s.task c with
  | untrackingMany untracked pending =>
      rw [hc] at hdeleting
      cases hdeleting with
      | untracking _ _ hpending =>
          cases e with
          | exec d =>
              rcases Option.some.inj hclient with rfl
              exact deletes_exec hc hpending h
          | expire expired => cases hclient
          | _ =>
              rcases Option.some.inj hclient with rfl
              simp [step, call, execUnlink, execExists, execSscan, hc] at h
  | unlinkingMany batch rest =>
      cases e with
      | execUnlink d unlinked =>
          rcases Option.some.inj hclient with rfl
          exact deletes_execUnlink hc h
      | expire expired => cases hclient
      | _ =>
          rcases Option.some.inj hclient with rfl
          simp [step, call, exec, execExists, execSscan, hc] at h
  | idle => exact absurd hc hbusy
  | _ =>
      rw [hc] at hdeleting
      cases hdeleting

theorem deleting_enabled (hdeleting : Deleting (s.task c))
    (hbusy : s.task c ≠ Task.idle) :
    exists e u, e.client = some c ∧ step ns s e = some u := by
  cases hc : s.task c with
  | untrackingMany untracked pending =>
      refine ⟨Event.exec c, s.command c (s.db.srem (pending.take SREM_CHUNK))
        (nextSrem (untracked ++ pending.take SREM_CHUNK)
          (pending.drop SREM_CHUNK)), rfl, ?_⟩
      simp [step, exec, hc]
  | unlinkingMany batch rest =>
      rw [hc] at hdeleting
      cases hdeleting with
      | unlinking _ _ hbatch =>
          cases batch with
          | nil => exact absurd rfl hbatch
          | cons first more =>
              cases hstep : step ns s (Event.execUnlink c first) with
              | none => simp [step, execUnlink, hc] at hstep
              | some u => exact ⟨Event.execUnlink c first, u, rfl, hstep⟩
  | idle => exact absurd hc hbusy
  | _ =>
      rw [hc] at hdeleting
      cases hdeleting

end Commands

/-!
## Runs
-/

/-- While the client's operation is in progress, and no one writes the name. -/
def Undisturbed (c : Client) (name : Name) (s : State) (e : Event) : Prop :=
  s.task c ≠ Task.idle ∧ ¬ SetsName name s e

/-- The client is deleting, and the name is still to come or gone. -/
structure GoneOrOwed (c : Client) (name : Name) (s : State) : Prop where
  deleting : Deleting (s.task c)
  gone : Owes name (s.task c) ∨ name ∉ s.db.entries

section Runs

variable {ns name key : Name} {s t u : State} {c : Client}

theorem goneOrOwed_step {e : Event} (hs : GoneOrOwed c name s)
    (hok : Undisturbed c name s e) (h : step ns s e = some t) :
    GoneOrOwed c name t := by
  have hentries : name ∉ s.db.entries -> name ∉ t.db.entries := by
    intro hgone hname
    rcases entries_step h hname with hold | hset
    · exact hgone hold
    · exact hok.right hset
  by_cases hclient : e.client = some c
  · have hdeletes := @deletes_step ns name s t c e hclient hs.deleting hok.left h
    refine ⟨hdeletes.deleting, ?_⟩
    rcases hs.gone with howes | hgone
    · exact hdeletes.owes howes
    · exact Or.inr (hentries hgone)
  · have htask := step_task_of_ne hclient h
    refine ⟨htask ▸ hs.deleting, ?_⟩
    rw [htask]
    exact hs.gone.imp_right hentries

/--
Whatever the others do meanwhile, a `delMany` either has ended with its keys
gone, or can go on and has less to do than before.
-/
theorem delMany_removes {keys : List Name}
    (hcall : step ns s (Event.delMany c keys) = some t) (hkey : key ∈ keys)
    (hrun : Transition.Reaches (step ns) (Undisturbed c (qualified ns key)) t u) :
    (u.task c = Task.idle -> qualified ns key ∉ u.db.entries) ∧
      (u.task c ≠ Task.idle -> exists e v, e.client = some c ∧
        step ns u e = some v ∧ left (v.task c) < left (u.task c)) := by
  have hstart : GoneOrOwed c (qualified ns key) t := by
    have htask : t.task c = nextSrem [] (keys.map (qualified ns)) := by
      simp only [step, call] at hcall
      split at hcall <;> cases hcall
      simp [State.command]
    refine ⟨htask ▸ (nextSrem_deleting [] _).left, Or.inl ?_⟩
    rw [htask, owes_nextSrem]
    exact Or.inr (List.mem_map_of_mem hkey)
  have hend : GoneOrOwed c (qualified ns key) u :=
    Transition.reaches_invariant hstart
      (fun _ _ _ hinv hok hstep => goneOrOwed_step hinv hok hstep) hrun
  constructor
  · intro hidle
    rcases hend.gone with howes | hgone
    · rw [hidle] at howes
      exact howes.elim
    · exact hgone
  · intro hbusy
    rcases @deleting_enabled ns u c hend.deleting hbusy with ⟨e, v, hclient, hstep⟩
    exact ⟨e, v, hclient, hstep,
      (@deletes_step ns (qualified ns key) u v c e hclient hend.deleting hbusy
        hstep).left⟩

/-- What is there and settled when the set is listed is listed. -/
theorem listed_of_settled
    (hreach : Transition.Reaches (step ns) Transition.Any State.init s)
    (hlive : qualified ns key ∈ s.db.entries)
    (hsettled : forall d, ¬ Owes (qualified ns key) (s.task d)) :
    key ∈ keys ns s := by
  have htracked : qualified ns key ∈ s.db.tracked := by
    rcases tracking_reaches hreach _ hlive with htracked | ⟨d, howes⟩
    · exact htracked
    · exact absurd howes (hsettled d)
  exact Finset.mem_image.mpr ⟨_, htracked, unqualified_qualified ns key⟩

/--
A purge that lists the set in `s` and is called in `s'` with what it matched:
no entry that was settled in `s` and that it matches is left when it ends in `u`,
unless it was written while the purge was deleting.
-/
theorem purge_removes {s' : State} {matching : Name -> Bool} {listed : List Name}
    (hreach : Transition.Reaches (step ns) Transition.Any State.init s)
    (hlive : qualified ns key ∈ s.db.entries)
    (hsettled : forall d, ¬ Owes (qualified ns key) (s.task d))
    (hlisted : forall other, other ∈ listed <-> other ∈ keys ns s)
    (hmatch : matching key = true)
    (hcall : step ns s' (Event.delMany c (listed.filter matching)) = some t)
    (hrun : Transition.Reaches (step ns) (Undisturbed c (qualified ns key)) t u) :
    (u.task c = Task.idle -> qualified ns key ∉ u.db.entries) ∧
      (u.task c ≠ Task.idle -> exists e v, e.client = some c ∧
        step ns u e = some v ∧ left (v.task c) < left (u.task c)) := by
  have hkey := (hlisted key).mpr (listed_of_settled hreach hlive hsettled)
  exact delMany_removes hcall (List.mem_filter.mpr ⟨hkey, hmatch⟩) hrun

end Runs

/-!
Client 1 purges an entry while client 0 writes another.
-/

def sparesName (c : Client) (name : Name) (s : State) : Event -> Bool
  | Event.exec d => s.task c ≠ Task.idle && s.task d ≠ Task.setting name
  | _ => s.task c ≠ Task.idle

theorem undisturbed_of_sparesName {c : Client} {name : Name} (s : State)
    (e : Event) (h : sparesName c name s e = true) : Undisturbed c name s e := by
  unfold sparesName at h
  split at h
  · rename_i d
    rcases Bool.and_eq_true_iff.mp h with ⟨hbusy, hother⟩
    have hset : s.task d ≠ Task.setting name := of_decide_eq_true hother
    exact ⟨of_decide_eq_true hbusy, hset⟩
  · rename_i hexec
    refine ⟨of_decide_eq_true h, ?_⟩
    intro hset
    cases e with
    | exec d => exact hexec d rfl
    | _ => exact hset

def settledEntry : State :=
  Transition.last (step "keyv".toList)
    [Event.set 0 "/api/a?".toList, Event.exec 0, Event.exec 0] State.init

def purgeCalled : State :=
  Transition.last (step "keyv".toList)
    [Event.delMany 1 ["/api/a?".toList]] settledEntry

def writeAmongPurge : List Event :=
  [Event.set 0 "/api/b?".toList, Event.exec 1, Event.exec 0,
    Event.execUnlink 1 "keyv:/api/a?".toList]

def purgeEnded : State :=
  Transition.lastChecked (step "keyv".toList)
    (sparesName 1 "keyv:/api/a?".toList) writeAmongPurge purgeCalled

theorem purge_removes_writeAmongPurge :
    "keyv:/api/a?".toList ∈ settledEntry.db.entries ∧
      "keyv:/api/b?".toList ∈ purgeEnded.db.entries ∧
      "keyv:/api/a?".toList ∉ purgeEnded.db.entries := by
  have hsettled : forall d, ¬ Owes "keyv:/api/a?".toList (settledEntry.task d) := by
    intro d
    by_cases hd : d = 0
    · rw [hd]
      exact id
    · have htask : settledEntry.task d = Task.idle := by
        apply exec_task_of_ne _ (Transition.exec_last (by decide))
        intro e he
        simp only [List.mem_cons, List.not_mem_nil, or_false] at he
        rcases he with rfl | rfl | rfl <;> simp [Event.client, Ne.symm hd]
      rw [htask]
      exact id
  have hkeys : keys "keyv".toList settledEntry = {"/api/a?".toList} := by
    decide
  have hlisted : forall other, other ∈ ["/api/a?".toList] <->
      other ∈ keys "keyv".toList settledEntry := by
    intro other
    rw [hkeys, Finset.mem_singleton, List.mem_singleton]
  have hrun : Transition.Reaches (step "keyv".toList)
      (Undisturbed 1 "keyv:/api/a?".toList) purgeCalled purgeEnded :=
    Transition.reaches_lastChecked
      (fun _ _ _ _ _ _ => trivial)
      (fun s e (_ : True) h => undisturbed_of_sparesName s e h) trivial (by decide)
  have hcall : step "keyv".toList settledEntry
      (Event.delMany 1 (["/api/a?".toList].filter (fun _ => true))) =
        some purgeCalled :=
    rfl
  have hpurge := @purge_removes "keyv".toList "/api/a?".toList settledEntry
    purgeCalled purgeEnded 1 settledEntry (fun _ => true) ["/api/a?".toList]
    (Transition.reaches_last (by decide)) (by decide) hsettled hlisted rfl hcall
    hrun
  exact ⟨by decide, by decide, hpurge.left (by decide)⟩

end Redis
end RestCache
