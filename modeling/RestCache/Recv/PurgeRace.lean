import RestCache.Config.RouteRegExp
import RestCache.Recv.StoreMoves

/-!
# A purge racing the requests it overtakes

A value read before a purge may land in the store after the purge has listed
the keys.  Until it is gone, either the purge is still going to delete it or
the request that wrote it is: that is the invariant, and it leaves nothing once
both have finished.
-/

namespace RestCache
namespace Recv

open Config
open Foundation
open Keys
open Store

variable {setup : Setup} {s t : State} {r : ReqId} {p : PurgeId} {e : Event}

/-!
## Who still deletes a value
-/

/-- The request asks once more whether it was overtaken, or is cleaning up. -/
def Owes (pc : Pc) (g : Nat) : Prop :=
  (exists ctx etagPending bodyPending,
    pc = Pc.storing g ctx etagPending bodyPending) ∨
  (exists ctx, pc = Pc.cleaning g ctx false)

def isOwing : Pc -> Bool
  | Pc.storing _ _ _ _ => true
  | Pc.cleaning _ _ false => true
  | _ => false

theorem isOwing_of_owes {pc : Pc} {g : Nat} (h : Owes pc g) :
    isOwing pc = true := by
  rcases h with ⟨ctx, etagPending, bodyPending, rfl⟩ | ⟨ctx, rfl⟩
  · rfl
  · rfl

/-- The purge will still delete what is stored under the key. -/
def WillDelete (pc : PurgePc) (x : JsString) : Prop :=
  match pc with
  | PurgePc.listing _ none => True
  | PurgePc.listing _ (some keys) => x ∈ keys
  | PurgePc.deleting _ keys false => x ∈ keys
  | PurgePc.clearing _ false => True
  | _ => False

/-- The purge covers the value and was recorded after the origin was read. -/
structure Overtaken (setup : Setup) (s : State) (p : PurgeId) (x : JsString)
    (c : Cell) (g : Nat) : Prop where
  numbered : (s.purges p).generation? = some g
  before : c.origin.generation < g
  key : covers (setup.key c.origin.owner) (setup.purge p) = true
  place : covers x (setup.purge p) = true
  home : x = setup.key c.origin.owner ∨ x = setup.etagKey c.origin.owner

def Swept (setup : Setup) (s : State) : Prop :=
  forall p x c g, Overtaken setup s p x c g ->
    s.store.lookup (setup.stored x) = some c ->
    WillDelete (s.purges p) x ∨
      Owes (s.recv c.origin.owner) c.origin.generation

theorem purged_of_numbered {recorded : List RegExps} {q : RegExps} {g n : Nat}
    {x : JsString} (h : NumberedAs recorded q g) (hn : n < g)
    (hcovers : covers x q = true) : Purged recorded n x := by
  rcases h with ⟨m, rfl, hm⟩
  refine ⟨q, ?_, hcovers⟩
  rw [List.mem_iff_getElem?]
  refine ⟨m - n, ?_⟩
  rw [List.getElem?_drop, Nat.add_sub_cancel' (Nat.lt_succ_iff.mp hn)]
  exact hm

/-- A request that a purge has overtaken finds that out. -/
theorem purgedSince_of_numbered (hs : Consistent setup s) {g n : Nat}
    {x : JsString} (hnum : (s.purges p).generation? = some g) (hn : n < g)
    (hcovers : covers x (setup.purge p) = true) :
    s.purgedSince n x = true := by
  have hnumbered := hs.purges p g hnum
  have hpurged := purged_of_numbered hnumbered hn hcovers
  have hle : n ≤ s.journal.recorded.length := by
    rcases hnumbered with ⟨m, rfl, hm⟩
    have hlt := (List.getElem?_eq_some_iff.mp hm).fst
    omega
  exact (purgedSince_iff s.journal.keeps hle x).mpr (Or.inr hpurged)

/-!
## One step
-/

theorem owes_of_wrote {y : JsString} {c : Cell}
    (h : Wrote setup s t r e y c) :
    c.origin.owner = r ∧ Owes (t.recv r) c.origin.generation := by
  cases h with
  | etag _ hpc => exact ⟨rfl, Or.inl ⟨_, _, _, hpc⟩⟩
  | entry _ hpc => exact ⟨rfl, Or.inl ⟨_, _, _, hpc⟩⟩

/-- The owner of an overtaken value stays in charge until the value is gone. -/
theorem owes_recvMove (h : RecvMove setup s r e t) (hs : Consistent setup s)
    {x : JsString} {c : Cell} {g : Nat} (hover : Overtaken setup s p x c g)
    (hc : t.store.lookup (setup.stored x) = some c)
    (howner : c.origin.owner = r)
    (howes : Owes (s.recv r) c.origin.generation) :
    Owes (t.recv r) c.origin.generation := by
  have hkey := hover.key
  have hhome := hover.home
  rw [howner] at hkey hhome
  have hpurged := purgedSince_of_numbered hs hover.numbered hover.before hkey
  rcases howes with ⟨ctx, etagPending, bodyPending, hpc⟩ | ⟨ctx, hpc⟩
  · cases h with
    | setEtag hpc' =>
        rw [hpc] at hpc'
        injection hpc' with hg
        subst hg
        exact Or.inl ⟨_, _, _, State.setRecv_recv_self _ _ _⟩
    | setEntry hpc' =>
        rw [hpc] at hpc'
        injection hpc' with hg
        subst hg
        exact Or.inl ⟨_, _, _, State.setRecv_recv_self _ _ _⟩
    | overtaken hpc' _ =>
        rw [hpc] at hpc'
        injection hpc' with hg
        subst hg
        exact Or.inr ⟨_, State.setRecv_recv_self _ _ _⟩
    | kept hpc' hnot =>
        rw [hpc] at hpc'
        injection hpc' with hg
        subst hg
        rw [hpurged] at hnot
        exact absurd hnot (by decide)
    | _ => simp_all
  · cases h with
    | delPair hpc' =>
        have hgone := (lookup_delMany hc).right
        rcases hhome with rfl | rfl
        · exact absurd rfl (hgone _ (by simp))
        · exact absurd rfl (hgone _ (by simp))
    | _ => simp_all

theorem overtaken_of_same {x : JsString} {c : Cell} {g : Nat}
    (hsame : (t.purges p).generation? = (s.purges p).generation?)
    (h : Overtaken setup t p x c g) : Overtaken setup s p x c g :=
  ⟨hsame ▸ h.numbered, h.before, h.key, h.place, h.home⟩

theorem swept_recvMove (h : RecvMove setup s r e t) (hs : Consistent setup s)
    (hswept : Swept setup s) : Swept setup t := by
  intro p x c g hover hc
  have hpurges := recvMove_purges h
  have hover' : Overtaken setup s p x c g :=
    overtaken_of_same (by rw [hpurges]) hover
  rcases recvMove_store h hc with hold | hwrote
  · rcases hswept p x c g hover' hold with hdelete | howes
    · rw [hpurges]
      exact Or.inl hdelete
    · apply Or.inr
      by_cases howner : c.origin.owner = r
      · rw [howner] at howes ⊢
        exact owes_recvMove h hs hover' hc howner howes
      · rw [recvMove_recv_of_ne h howner]
        exact howes
  · rcases owes_of_wrote hwrote with ⟨howner, howes⟩
    rw [howner]
    exact Or.inr howes

/-- A purge deletes every matching key it has listed before it returns. -/
theorem willDelete_purgeMove (h : PurgeMove setup s p e t) {x : JsString}
    {c : Cell} (hcovers : covers x (setup.purge p) = true)
    (hc : t.store.lookup (setup.stored x) = some c)
    (hdelete : WillDelete (s.purges p) x) : WillDelete (t.purges p) x := by
  cases h with
  | start hpc =>
      rw [hpc] at hdelete
      exact absurd hdelete (by simp [WillDelete])
  | list _ =>
      rw [State.setPurge_purges_self]
      exact mem_logicalKeys hc
  | nothing hpc hnone =>
      rw [hpc] at hdelete
      have hmem : x ∈ List.filter (fun key => covers key (setup.purge p)) _ :=
        List.mem_filter.mpr ⟨hdelete, hcovers⟩
      rw [hnone] at hmem
      exact absurd hmem (by simp)
  | select hpc =>
      rw [hpc] at hdelete
      rw [State.setPurge_purges_self]
      exact List.mem_filter.mpr ⟨hdelete, hcovers⟩
  | delete hpc =>
      rw [hpc] at hdelete
      exact absurd rfl ((lookup_delMany hc).right x hdelete)
  | deleted hpc =>
      rw [hpc] at hdelete
      exact absurd hdelete (by simp [WillDelete])
  | clear _ => exact absurd hc (by simp [State.setPurge])
  | cleared hpc =>
      rw [hpc] at hdelete
      exact absurd hdelete (by simp [WillDelete])

theorem willDelete_start (x : JsString) :
    WillDelete ((s.recordPurge setup p).purges p) x := by
  unfold State.recordPurge
  simp only
  split
  · rw [State.setPurge_purges_self]
    trivial
  · rw [State.setPurge_purges_self]
    trivial

theorem purgeMove_sameGeneration (h : PurgeMove setup s p e t) :
    (s.purges p = PurgePc.idle ∧ t = s.recordPurge setup p) ∨
      (t.purges p).generation? = (s.purges p).generation? := by
  cases h with
  | start hpc => exact Or.inl ⟨hpc, rfl⟩
  | _ =>
      rename_i hpc
      apply Or.inr
      simp_all [PurgePc.generation?]

theorem swept_purgeMove (h : PurgeMove setup s p e t)
    (hswept : Swept setup s) : Swept setup t := by
  intro q x c g hover hc
  have hold := purgeMove_store h hc
  rw [(purgeMove_same h).left]
  by_cases hq : q = p
  · subst hq
    rcases purgeMove_sameGeneration h with ⟨_, rfl⟩ | hsame
    · exact Or.inl (willDelete_start x)
    · refine (hswept q x c g (overtaken_of_same hsame hover) hold).imp ?_ id
      exact willDelete_purgeMove h hover.place hc
  · have hpurges := purgeMove_purges h hq
    rw [hpurges]
    exact hswept q x c g (overtaken_of_same (by rw [hpurges]) hover) hold

theorem swept_step (hs : Consistent setup s) (hswept : Swept setup s)
    (h : step setup s e = some t) : Swept setup t := by
  cases moves_of_step h with
  | recv hmove => exact swept_recvMove hmove hs hswept
  | purge hmove => exact swept_purgeMove hmove hswept
  | expire key =>
      intro p x c g hover hc
      have hold : Overtaken setup s p x c g :=
        ⟨hover.numbered, hover.before, hover.key, hover.place, hover.home⟩
      exact hswept p x c g hold (lookup_erase_some hc).left

theorem swept_reachable {ok : State -> Event -> Prop}
    (h : Reachable setup ok s) : Swept setup s := by
  refine Transition.reaches_invariant_along (J := Consistent setup) ?_
    (fun _ => consistent_reachable) ?_ h
  · intro p x c g hover
    exact absurd hover.numbered (by simp [State.init, PurgePc.generation?])
  · intro a e b ha hswept _ hnext
    exact swept_step ha hswept hnext

/-!
## After the purge
-/

def Finished (pc : Pc) : Prop :=
  (exists answer ctx, pc = Pc.done answer ctx) ∨ pc = Pc.failed

theorem not_owes_of_finished {pc : Pc} {g : Nat} (h : Finished pc) :
    ¬ Owes pc g := by
  rcases h with ⟨answer, ctx, rfl⟩ | rfl
  · simp [Owes]
  · simp [Owes]

/--
Once a purge that matches `k` has returned, no request for `k` that read the
origin before the purge was recorded and has finished has a value in the store.
-/
def NoStaleEntry (setup : Setup) (k : JsString) (s : State) : Prop :=
  forall p g, s.purges p = PurgePc.returned g ->
    covers k (setup.purge p) = true ->
    forall x c, x = k ∨ x = k ++ "_etag".toList ->
      s.store.lookup (setup.stored x) = some c ->
      setup.key c.origin.owner = k -> c.origin.generation < g ->
      ¬ Finished (s.recv c.origin.owner)

/-- Every purge that is started and matches `k` matches its ETag's key too. -/
def MatchesEtagToo (setup : Setup) (k : JsString) (_ : State) (e : Event) :
    Prop :=
  forall p, e = Event.startPurge p -> covers k (setup.purge p) = true ->
    covers (k ++ "_etag".toList) (setup.purge p) = true

theorem noStaleEntry_of_swept {k x : JsString} {c : Cell} {g : Nat}
    (hswept : Swept setup s) (hp : s.purges p = PurgePc.returned g)
    (hk : covers k (setup.purge p) = true)
    (hx : covers x (setup.purge p) = true)
    (hplace : x = k ∨ x = k ++ "_etag".toList)
    (hc : s.store.lookup (setup.stored x) = some c)
    (hkey : setup.key c.origin.owner = k) (hg : c.origin.generation < g) :
    ¬ Finished (s.recv c.origin.owner) := by
  intro hfinished
  have hover : Overtaken setup s p x c g := by
    refine ⟨by rw [hp]; rfl, hg, by rw [hkey]; exact hk, hx, ?_⟩
    rw [hkey, Setup.etagKey, hkey]
    exact hplace
  rcases hswept p x c g hover hc with hdelete | howes
  · rw [hp] at hdelete
    exact hdelete
  · exact not_owes_of_finished hfinished howes

def StartedMatchEtag (setup : Setup) (k : JsString) (s : State) : Prop :=
  forall p g, (s.purges p).generation? = some g ->
    covers k (setup.purge p) = true ->
    covers (k ++ "_etag".toList) (setup.purge p) = true

theorem startedMatchEtag_reachable {k : JsString}
    (h : Reachable setup (MatchesEtagToo setup k) s) :
    StartedMatchEtag setup k s := by
  refine Transition.reaches_invariant ?_ ?_ h
  · intro p g hg
    simp [State.init, PurgePc.generation?] at hg
  · intro a e b ha hok hnext p g hg hk
    cases moves_of_step hnext with
    | expire key => exact ha p g hg hk
    | recv hmove =>
        rw [recvMove_purges hmove] at hg
        exact ha p g hg hk
    | purge hmove =>
        rename_i q
        by_cases hq : p = q
        · subst hq
          rcases purgeMove_sameGeneration hmove with ⟨hidle, _⟩ | hsame
          · cases hmove with
            | start _ => exact hok p rfl hk
            | _ => simp_all
          · rw [hsame] at hg
            exact ha p g hg hk
        · rw [purgeMove_purges hmove hq] at hg
          exact ha p g hg hk

/-- No stale entry is resurrected by a race with a purge. -/
theorem noStaleEntry_of_reachable {setup : Setup} {k : JsString} {s : State}
    (h : Reachable setup (MatchesEtagToo setup k) s) :
    NoStaleEntry setup k s := by
  intro p g hp hk x c hplace hc hkey hg
  have hetag := startedMatchEtag_reachable h p g (by rw [hp]; rfl) hk
  refine noStaleEntry_of_swept (swept_reachable h) hp hk ?_ hplace hc hkey hg
  rcases hplace with rfl | rfl
  · exact hk
  · exact hetag

def matchesEtagTooCheck (setup : Setup) (k : JsString) (_ : State)
    (e : Event) : Bool :=
  match e with
  | Event.startPurge p =>
      !covers k (setup.purge p) ||
        covers (k ++ "_etag".toList) (setup.purge p)
  | _ => true

theorem matchesEtagToo_of_check {k : JsString}
    (h : matchesEtagTooCheck setup k s e = true) :
    MatchesEtagToo setup k s e := by
  intro p hgiven hk
  subst hgiven
  simpa [matchesEtagTooCheck, hk] using h

def staticRoute (path : JsString) : CacheRouteConfig where
  path
  method := "GET".toList
  paramNames := []

def Setup.purging (path : JsString) : Setup :=
  { Setup.plain with
    purge := fun _ => some (patternsOf
      (getRouteRegExp CaseMapping.latin1 (staticRoute path) none true)) }

def listedBeforeStored : List Event :=
  missing 0 ++
    [Event.nextDone 0 (Response.ok "a".toList), Event.startPurge 0,
      Event.listKeys 0, Event.setEtag 0, Event.setEntry 0, Event.keysListed 0,
      Event.writesDone 0, Event.delPair 0, Event.delPairDone 0]

theorem noStaleEntry_of_reachable_listedBeforeStored :
    let setup := Setup.purging "/foo".toList
    let s := Transition.lastChecked (step setup)
      (matchesEtagTooCheck setup (setup.key 0)) listedBeforeStored State.init
    s.purges 0 = PurgePc.returned 1 ∧
      covers (setup.key 0) (setup.purge 0) = true ∧
      NoStaleEntry setup (setup.key 0) s := by
  refine ⟨by decide +kernel, by decide +kernel, ?_⟩
  apply noStaleEntry_of_reachable
  exact @reachable_lastChecked _ [0] _ _ _
    (by simp [BeginsOnly, listedBeforeStored, missing])
    (fun s e _ => matchesEtagToo_of_check) (by decide +kernel)

def RoutePurges (setup : Setup) : Prop :=
  forall p patterns, setup.purge p = some patterns ->
    forall q, q ∈ patterns ->
      exists route params wildcard found,
        getRouteRegExp setup.lower route params wildcard = Except.ok found ∧
          q ∈ found

theorem routePurges_purging {path : JsString}
    (h : (getRouteRegExp CaseMapping.latin1 (staticRoute path) none
      true).isOk = true) :
    RoutePurges (Setup.purging path) := by
  intro p patterns hp q hq
  refine ⟨staticRoute path, none, true, patterns, ?_, hq⟩
  rw [← Option.some.inj hp]
  exact eq_ok_patternsOf h

def purgedAfterStored : List Event :=
  missing 0 ++
    [Event.nextDone 0 (Response.ok "a".toList), Event.setEtag 0,
      Event.setEntry 0, Event.writesDone 0, Event.startPurge 0,
      Event.listKeys 0, Event.keysListed 0, Event.delKeys 0,
      Event.keysDeleted 0]

/-- A path whose dollar sign is read as the end of the key. -/
def dollarPath : JsString :=
  "/api/x|&&$|y".toList

theorem not_noStaleEntry_purgedAfterStored :
    ¬ forall setup k s, RoutePurges setup ->
      Reachable setup Transition.Any s -> NoStaleEntry setup k s := by
  intro h
  let setup := Setup.purging dollarPath
  let s := Transition.last (step setup) purgedAfterStored State.init
  have hreach : Reachable setup Transition.Any s :=
    Transition.reaches_last (by decide +kernel)
  have hstale := h setup (setup.key 0) s
    (routePurges_purging (by decide +kernel)) hreach
  refine hstale 0 1 (by decide +kernel) (by decide +kernel) (setup.etagKey 0)
    (State.etagCell setup 0 0 (Response.ok "a".toList)) (Or.inr rfl)
    (by decide +kernel) rfl Nat.zero_lt_one ?_
  exact Or.inl ⟨Answer.fetched 0 0,
    State.advertised setup 0 (Response.ok "a".toList), by decide +kernel⟩

end Recv
end RestCache
