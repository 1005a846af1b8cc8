import RestCache.Recv.Consistent

/-!
# What the moves do to the store

A value gets into the store by its own request's two writes only, under that
request's key or its ETag's key.
-/

namespace RestCache
namespace Recv

open Foundation
open Keys
open Store

variable {setup : Setup} {s t : State} {r : ReqId} {p : PurgeId} {e : Event}

/-!
## The provider
-/

theorem stored_injective {x y : JsString}
    (h : setup.stored x = setup.stored y) : x = y :=
  List.append_cancel_left h

theorem lookup_insert_cases {store : Provider} {key y : JsString}
    {cell c : Cell} (h : (store.insert key cell).lookup y = some c) :
    store.lookup y = some c ∨ (y = key ∧ c = cell) := by
  by_cases hy : y = key
  · subst hy
    rw [AList.lookup_insert, Option.some.injEq] at h
    exact Or.inr ⟨rfl, h.symm⟩
  · rw [AList.lookup_insert_ne hy] at h
    exact Or.inl h

theorem lookup_erase_some {store : Provider} {key y : JsString} {c : Cell}
    (h : (store.erase key).lookup y = some c) :
    store.lookup y = some c ∧ y ≠ key := by
  by_cases hy : y = key
  · subst hy
    rw [AList.lookup_erase] at h
    exact absurd h (by simp)
  · rw [AList.lookup_erase_ne hy] at h
    exact ⟨h, hy⟩

theorem lookup_delMany {keys : List JsString} {y : JsString} {c : Cell}
    (h : (s.providerDelMany setup keys).store.lookup y = some c) :
    s.store.lookup y = some c ∧ forall x, x ∈ keys -> y ≠ setup.stored x := by
  have hfold : forall (keys : List JsString) (store : Provider),
      (keys.foldl (fun store key => store.erase (setup.stored key))
        store).lookup y = some c ->
      store.lookup y = some c ∧
        forall x, x ∈ keys -> y ≠ setup.stored x := by
    intro keys
    induction keys with
    | nil =>
        intro store h
        exact ⟨h, by simp⟩
    | cons key rest ih =>
        intro store h
        rcases ih _ h with ⟨hlookup, hrest⟩
        rcases lookup_erase_some hlookup with ⟨hold, hne⟩
        refine ⟨hold, ?_⟩
        intro x hx
        rcases List.mem_cons.mp hx with hx | hx
        · rw [hx]
          exact hne
        · exact hrest x hx
  exact hfold keys s.store h

theorem mem_logicalKeys {x : JsString} {c : Cell}
    (h : s.store.lookup (setup.stored x) = some c) :
    x ∈ s.logicalKeys setup := by
  have hkey : setup.stored x ∈ s.store.keys := by
    rw [← AList.mem_keys, ← AList.lookup_isSome, h]
    rfl
  refine List.mem_map.mpr ⟨setup.stored x, List.mem_filter.mpr ⟨hkey, ?_⟩, ?_⟩
  · simp [Setup.stored]
  · simp [Setup.stored]

/-!
## Writes
-/

inductive Wrote (setup : Setup) (s t : State) (r : ReqId) :
    Event -> JsString -> Cell -> Prop where
  | etag {g : Nat} {ctx : Response} {bodyPending : Bool} :
      s.recv r = Pc.storing g ctx true bodyPending ->
      t.recv r = Pc.storing g ctx false bodyPending ->
      Wrote setup s t r (Event.setEtag r) (setup.stored (setup.etagKey r))
        (State.etagCell setup r g ctx)
  | entry {g : Nat} {ctx : Response} {etagPending : Bool} :
      s.recv r = Pc.storing g ctx etagPending true ->
      t.recv r = Pc.storing g ctx etagPending false ->
      Wrote setup s t r (Event.setEntry r) (setup.stored (setup.key r))
        (State.entryCell setup r g ctx)

/-- What a request's move leaves in the store was there, or it has written it. -/
theorem recvMove_store (h : RecvMove setup s r e t) {y : JsString} {c : Cell}
    (hc : t.store.lookup y = some c) :
    s.store.lookup y = some c ∨ Wrote setup s t r e y c := by
  cases h with
  | setEtag hpc =>
      rcases lookup_insert_cases hc with hold | ⟨hy, hnew⟩
      · exact Or.inl hold
      · rw [hy, hnew]
        exact Or.inr (Wrote.etag hpc (State.setRecv_recv_self _ _ _))
  | setEntry hpc =>
      rcases lookup_insert_cases hc with hold | ⟨hy, hnew⟩
      · exact Or.inl hold
      · rw [hy, hnew]
        exact Or.inr (Wrote.entry hpc (State.setRecv_recv_self _ _ _))
  | delPair hpc => exact Or.inl (lookup_delMany hc).left
  | _ => exact Or.inl (by simpa [State.finish] using hc)

theorem purgeMove_store (h : PurgeMove setup s p e t) {y : JsString} {c : Cell}
    (hc : t.store.lookup y = some c) : s.store.lookup y = some c := by
  cases h with
  | start _ =>
      rw [recordPurge_same.left] at hc
      exact hc
  | delete _ => exact (lookup_delMany hc).left
  | clear _ => exact absurd hc (by simp [State.setPurge])
  | _ => exact hc

theorem moves_store (h : Moves setup s e t) {y : JsString} {c : Cell}
    (hc : t.store.lookup y = some c) :
    s.store.lookup y = some c ∨ exists r, Wrote setup s t r e y c := by
  cases h with
  | expire key => exact Or.inl (lookup_erase_some hc).left
  | purge hmove => exact Or.inl (purgeMove_store hmove hc)
  | recv hmove =>
      rename_i r
      exact (recvMove_store hmove hc).imp id (fun hwrote => ⟨r, hwrote⟩)

/-!
## Whose values are where
-/

def UsesEtag (pc : Pc) : Prop :=
  (exists reply, pc = Pc.readingEtag reply) ∨
  (exists etag reply, pc = Pc.readingEntry (some etag) reply) ∨
  (exists origin ctx, pc = Pc.done (Answer.notModified origin) ctx) ∨
  (exists g ctx bodyPending, pc = Pc.storing g ctx true bodyPending)

def EtagsEnabled (setup : Setup) (s : State) : Prop :=
  forall r, UsesEtag (s.recv r) -> setup.enableEtag = true

theorem etagsEnabled_step (hs : EtagsEnabled setup s)
    (h : step setup s e = some t) : EtagsEnabled setup t := by
  intro q huses
  cases moves_of_step h with
  | expire key => exact hs q huses
  | purge hmove =>
      rw [(purgeMove_same hmove).left] at huses
      exact hs q huses
  | recv hmove =>
      rename_i r
      by_cases hq : q = r
      · subst hq
        have hself := hs q
        cases hmove with
        | getEntry hpc =>
            rw [hpc] at hself
            rw [State.setRecv_recv_self] at huses
            exact hself (by simpa [UsesEtag] using huses)
        | _ =>
            simp_all [UsesEtag, State.finish, State.providerSet,
              State.providerDelMany]
      · rw [recvMove_recv_of_ne hmove hq] at huses
        exact hs q huses

theorem etagsEnabled_reachable {ok : State -> Event -> Prop}
    (h : Reachable setup ok s) : EtagsEnabled setup s := by
  refine Transition.reaches_invariant ?_ ?_ h
  · intro r huses
    simp [UsesEtag, State.init] at huses
  · intro a e b ha _ hnext
    exact etagsEnabled_step ha hnext

/-- Every value is under its request's key or its ETag's key. -/
def Housed (setup : Setup) (s : State) : Prop :=
  forall y c, s.store.lookup y = some c ->
    y = setup.stored (setup.key c.origin.owner) ∨
      (setup.enableEtag = true ∧
        y = setup.stored (setup.etagKey c.origin.owner))

theorem housed_step (henabled : EtagsEnabled setup s) (hs : Housed setup s)
    (h : step setup s e = some t) : Housed setup t := by
  intro y c hc
  rcases moves_store (moves_of_step h) hc with hold | ⟨r, hwrote⟩
  · exact hs y c hold
  · cases hwrote with
    | etag hpc _ =>
        have huses : UsesEtag (s.recv r) :=
          Or.inr (Or.inr (Or.inr ⟨_, _, _, hpc⟩))
        exact Or.inr ⟨henabled r huses, rfl⟩
    | entry _ _ => exact Or.inl rfl

theorem housed_reachable {ok : State -> Event -> Prop}
    (h : Reachable setup ok s) : Housed setup s := by
  refine Transition.reaches_invariant_along (J := EtagsEnabled setup) ?_
    (fun _ => etagsEnabled_reachable) ?_ h
  · intro y c hc
    simp [State.init] at hc
  · intro a e b ha hhoused _ hnext
    exact housed_step ha hhoused hnext

def NoEtagClash (setup : Setup) : Prop :=
  forall q r, setup.key q ≠ setup.etagKey r

theorem noEtagClash_of_oneKey {k : JsString}
    (h : forall r, setup.key r = k) : NoEtagClash setup := by
  intro q r hclash
  rw [Setup.etagKey, h q, h r] at hclash
  exact absurd (congrArg List.length hclash) (by simp)

theorem etagKey_injective {q : ReqId}
    (h : setup.etagKey q = setup.etagKey r) : setup.key q = setup.key r :=
  List.append_cancel_right h

/-- What is stored under a request's own key was written under that key. -/
theorem housed_key (hs : Housed setup s)
    (hclash : setup.enableEtag = true -> NoEtagClash setup) {c : Cell}
    (hc : s.store.lookup (setup.stored (setup.key r)) = some c) :
    setup.key c.origin.owner = setup.key r := by
  rcases hs _ c hc with hkey | ⟨henabled, hetag⟩
  · exact (stored_injective hkey).symm
  · exact absurd (stored_injective hetag) (hclash henabled r c.origin.owner)

theorem housed_etagKey (hs : Housed setup s) (hclash : NoEtagClash setup)
    {c : Cell}
    (hc : s.store.lookup (setup.stored (setup.etagKey r)) = some c) :
    setup.key c.origin.owner = setup.key r := by
  rcases hs _ c hc with hkey | ⟨_, hetag⟩
  · exact absurd (stored_injective hkey).symm (hclash c.origin.owner r)
  · exact (etagKey_injective (stored_injective hetag)).symm

end Recv
end RestCache
