import RestCache.Recv.Coalescing
import RestCache.Recv.ReadYourWrites

/-!
# ETag and body

A hit reads the stored ETag and the stored body one after the other, and a
store writes them one after the other.  They belong together as long as no write
lands beside the other half of a different pair, in the store or in the hands of
a request that has read one half already.
-/

namespace RestCache
namespace Recv

open Foundation
open Keys
open Store

variable {setup : Setup} {s t : State} {r : ReqId} {e : Event}

def TagOf (setup : Setup) (etag : Cell) (body : Body) : Prop :=
  setup.toText etag.data = etagGenerate setup.md5 body

/-- The ETag a request holds between its two reads. -/
def HoldsEtag (pc : Pc) (etag : Cell) : Prop :=
  pc = Pc.readingEtag (some (some etag)) ∨ pc = Pc.readingEntry (some etag) none

/--
A write lands only where the other half of its pair is missing or of a body with
the same ETag, and a body also only where no request for its key holds another
ETag.  The body is the one that is read back: a date comes back as a string.
-/
structure WritesMatch (setup : Setup) (s : State) (e : Event) : Prop where
  etag : forall r g ctx bodyPending, e = Event.setEtag r ->
    s.recv r = Pc.storing g ctx true bodyPending ->
    forall entry, s.store.lookup (setup.stored (setup.key r)) = some entry ->
      etagGenerate setup.md5 entry.body = etagGenerate setup.md5 ctx.body
  entry : forall r g ctx etagPending, e = Event.setEntry r ->
    s.recv r = Pc.storing g ctx etagPending true ->
    (forall etag,
      s.store.lookup (setup.stored (setup.etagKey r)) = some etag ->
      TagOf setup etag ctx.body.readBack) ∧
    (forall q etag, setup.key q = setup.key r -> HoldsEtag (s.recv q) etag ->
      TagOf setup etag ctx.body.readBack)

def etagBefore (setup : Setup) (s : State) (r : ReqId) :
    Answer -> Option JsString
  | Answer.fetched _ _ => (s.handled r).bind Response.etag
  | _ => (setup.request r).response.etag

def HeaderMatches (setup : Setup) (before : Option JsString) (ctx : Response) :
    Prop :=
  ctx.etag = before ∨
    ctx.etag = some (quoted (etagGenerate setup.md5 ctx.body))

/-- Every ETag that recv has put on a 200 response is the one of its body. -/
def EtagsMatch (setup : Setup) (s : State) : Prop :=
  forall r answer ctx, s.recv r = Pc.done answer ctx -> ctx.status = 200 ->
    HeaderMatches setup (etagBefore setup s r answer) ctx

/-!
## The invariant
-/

def StorePaired (setup : Setup) (s : State) : Prop :=
  forall r etag entry,
    s.store.lookup (setup.stored (setup.etagKey r)) = some etag ->
    s.store.lookup (setup.stored (setup.key r)) = some entry ->
    TagOf setup etag entry.body

def HeldPaired (setup : Setup) (s : State) : Prop :=
  forall r etag entry, HoldsEtag (s.recv r) etag ->
    s.store.lookup (setup.stored (setup.key r)) = some entry ->
    TagOf setup etag entry.body

/-- What the request has read or set so far belongs together. -/
def PairAt (setup : Setup) (r : ReqId) (handled : Option Response) (pc : Pc) :
    Prop :=
  match pc with
  | Pc.readingEntry (some etag) (some (some entry)) =>
      TagOf setup etag entry.body
  | Pc.storing _ ctx _ _ =>
      HeaderMatches setup (handled.bind Response.etag) ctx
  | Pc.cleaning _ ctx _ =>
      HeaderMatches setup (handled.bind Response.etag) ctx
  | Pc.done (Answer.fetched _ _) ctx =>
      HeaderMatches setup (handled.bind Response.etag) ctx
  | Pc.done (Answer.notModified _) ctx => ctx.status = 304
  | Pc.done _ ctx => HeaderMatches setup (setup.request r).response.etag ctx
  | _ => True

structure Paired (setup : Setup) (s : State) : Prop where
  store : StorePaired setup s
  held : HeldPaired setup s
  pairs : forall r, PairAt setup r (s.handled r) (s.recv r)

/-!
## One step
-/

theorem key_of_stored {q : ReqId}
    (h : setup.stored (setup.etagKey q) = setup.stored (setup.etagKey r)) :
    setup.key q = setup.key r :=
  etagKey_injective (stored_injective h)

theorem storePaired_step (hclash : NoEtagClash setup)
    (hok : WritesMatch setup s e) (hs : StorePaired setup s)
    (h : step setup s e = some t) : StorePaired setup t := by
  intro r etag entry hetag hentry
  have hmoves := moves_of_step h
  generalize hy : setup.stored (setup.etagKey r) = y at hetag
  generalize hz : setup.stored (setup.key r) = z at hentry
  rcases moves_store hmoves hetag with hetag | ⟨q, hwrote⟩
  · rcases moves_store hmoves hentry with hentry | ⟨q, hwrote⟩
    · rw [← hy] at hetag
      rw [← hz] at hentry
      exact hs r etag entry hetag hentry
    · cases hwrote with
      | etag _ _ => exact absurd (stored_injective hz) (hclash r q)
      | entry hpc _ =>
          have hkey := stored_injective hz
          rw [State.entryCell_body]
          apply (hok.entry q _ _ _ rfl hpc).left etag
          rw [Setup.etagKey, ← hkey]
          rw [← hy] at hetag
          exact hetag
  · cases hwrote with
    | entry _ _ => exact absurd (stored_injective hy).symm (hclash q r)
    | etag hpc _ =>
        rcases moves_store hmoves hentry with hentry | ⟨o, hwrote⟩
        · have hkey := key_of_stored hy
          rw [← hz, hkey] at hentry
          rw [TagOf, State.etagCell_data]
          exact (hok.etag q _ _ _ rfl hpc entry hentry).symm
        · cases hwrote with
          | etag _ _ => exact absurd (stored_injective hz) (hclash r _)

theorem heldPaired_step (hclash : NoEtagClash setup)
    (hok : WritesMatch setup s e) (hstore : StorePaired setup s)
    (hs : HeldPaired setup s) (h : step setup s e = some t) :
    HeldPaired setup t := by
  intro r etag entry hholds hentry
  have hmoves := moves_of_step h
  generalize hz : setup.stored (setup.key r) = z at hentry
  rcases moves_store hmoves hentry with hold | ⟨q, hwrote⟩
  · rw [← hz] at hold
    cases hmoves with
    | expire key => exact hs r etag entry hholds hold
    | purge hmove =>
        rw [(purgeMove_same hmove).left] at hholds
        exact hs r etag entry hholds hold
    | recv hmove =>
        rename_i q
        by_cases hq : r = q
        · subst hq
          cases hmove with
          | getEtag hpc =>
              rw [State.setRecv_recv_self] at hholds
              rcases hholds with hholds | hholds
              · injection hholds with hholds
                injection hholds with hholds
                exact hstore r etag entry (providerGet_some hholds) hold
              · exact absurd hholds (by simp)
          | keepEtag hpc hpresent _ =>
              rw [State.setRecv_recv_self] at hholds
              rcases hholds with hholds | hholds
              · exact absurd hholds (by simp)
              · injection hholds with hholds
                injection hholds with hholds
                rw [hholds] at hpresent
                refine hs r etag entry (Or.inl ?_) hold
                rw [hpc, present_some hpresent]
          | _ =>
              simp [HoldsEtag, State.finish] at hholds
        · rw [recvMove_recv_of_ne hmove hq] at hholds
          exact hs r etag entry hholds hold
  · cases hwrote with
    | etag _ _ => exact absurd (stored_injective hz) (hclash r q)
    | entry hpc hpc' =>
        have hkey := stored_injective hz
        rw [State.entryCell_body]
        apply (hok.entry q _ _ _ rfl hpc).right r etag hkey
        cases hmoves with
        | recv hmove =>
            rename_i o
            by_cases hr : r = o
            · subst hr
              cases hmove with
              | setEntry _ => simp [HoldsEtag] at hholds
            · rw [recvMove_recv_of_ne hmove hr] at hholds
              exact hholds
        | purge hmove => cases hmove

theorem hitResponse_matches {etag : Option Cell} {entry : Cell}
    (h : forall c, etag = some c -> TagOf setup c entry.body) :
    HeaderMatches setup (setup.request r).response.etag
      (State.hitResponse setup r etag entry) := by
  have hbefore : (setup.xCache "HIT".toList (setup.request r).response).etag =
      (setup.request r).response.etag := by
    unfold Setup.xCache
    split <;> rfl
  cases etag with
  | none =>
      left
      simp only [State.hitResponse, replay_etag, setCacheControl_etag]
      exact hbefore
  | some c =>
      right
      simp only [State.hitResponse, replay_etag, replay_body,
        setCacheControl_etag]
      rw [h c rfl]

theorem advertised_matches {ctx : Response} :
    HeaderMatches setup ctx.etag
      (State.advertised setup r (setup.xCache "MISS".toList ctx)) := by
  have hetag : (setup.xCache "MISS".toList ctx).etag = ctx.etag := by
    unfold Setup.xCache
    split <;> rfl
  unfold State.advertised
  simp only
  split
  · exact Or.inr rfl
  · left
    rw [setCacheControl_etag, hetag]

theorem pairAt_finish {g : Nat} {ctx : Response}
    (h : HeaderMatches setup ((s.handled r).bind Response.etag) ctx) :
    PairAt setup r ((s.finish r g ctx).handled r)
      ((s.finish r g ctx).recv r) := by
  have hpc : (s.finish r g ctx).recv r =
      Pc.done (Answer.fetched g s.generation) ctx :=
    State.setRecv_recv_self s r _
  rw [hpc]
  exact h

theorem pairAt_recvMove (h : RecvMove setup s r e t) (hs : Paired setup s) :
    PairAt setup r (t.handled r) (t.recv r) := by
  have hself := hs.pairs r
  have hkept : forall {value : JsString} {ctx : Response},
      HeaderMatches setup ctx.etag (setup.xCache value ctx) := by
    intro value ctx
    left
    unfold Setup.xCache
    split <;> rfl
  cases h with
  | notModified _ _ _ hstatus =>
      rw [State.setRecv_recv_self]
      exact hstatus
  | getEntry hpc =>
      rename_i etag timedOut
      rw [State.setRecv_recv_self]
      cases etag with
      | none => trivial
      | some etag =>
          cases hreply : s.providerGet setup (setup.key r) timedOut with
          | none => trivial
          | some entry =>
              exact hs.held r etag entry (Or.inr hpc) (providerGet_some hreply)
  | hit hpc hpresent =>
      rw [hpc, present_some hpresent] at hself
      rw [State.setRecv_recv_self]
      apply hitResponse_matches
      intro c hgiven
      subst hgiven
      exact hself
  | shared hpc _ =>
      rw [State.setRecv_recv_self]
      left
      rw [State.sharedResponse, replay_etag]
      unfold Setup.xCache
      split <;> rfl
  | bypassed hpc _ =>
      apply pairAt_finish
      rw [State.afterRead_handled_self]
      exact hkept
  | refused hpc _ _ =>
      apply pairAt_finish
      rw [State.settle_handled, State.afterRead_handled_self]
      exact hkept
  | raced hpc _ _ _ =>
      apply pairAt_finish
      rw [State.settle_handled, State.afterRead_handled_self]
      exact hkept
  | store hpc _ _ _ =>
      rw [State.setRecv_recv_self, State.setRecv_handled, State.settle_handled,
        State.afterRead_handled_self]
      exact advertised_matches
  | setEtag hpc =>
      rw [hpc] at hself
      rw [State.setRecv_recv_self]
      exact hself
  | setEntry hpc =>
      rw [hpc] at hself
      rw [State.setRecv_recv_self]
      exact hself
  | overtaken hpc _ =>
      rw [hpc] at hself
      rw [State.setRecv_recv_self]
      exact hself
  | kept hpc _ =>
      rw [hpc] at hself
      exact pairAt_finish hself
  | delPair hpc =>
      rw [hpc] at hself
      rw [State.setRecv_recv_self]
      exact hself
  | cleaned hpc =>
      rw [hpc] at hself
      exact pairAt_finish hself
  | _ => simp [PairAt]

theorem paired_step (hclash : NoEtagClash setup) (hok : WritesMatch setup s e)
    (hs : Paired setup s) (h : step setup s e = some t) : Paired setup t := by
  refine ⟨storePaired_step hclash hok hs.store h,
    heldPaired_step hclash hok hs.store hs.held h, ?_⟩
  intro q
  cases moves_of_step h with
  | expire key => exact hs.pairs q
  | purge hmove =>
      rcases purgeMove_same hmove with ⟨hrecv, _, _, hhandled⟩
      rw [hrecv, hhandled]
      exact hs.pairs q
  | recv hmove =>
      rename_i r
      by_cases hq : q = r
      · subst hq
        exact pairAt_recvMove hmove hs
      · rw [recvMove_handled_of_ne hmove hq, recvMove_recv_of_ne hmove hq]
        exact hs.pairs q

theorem paired_reachable (hclash : NoEtagClash setup)
    (h : Reachable setup (WritesMatch setup) s) : Paired setup s := by
  refine Transition.reaches_invariant ?_ ?_ h
  · refine ⟨?_, ?_, fun r => trivial⟩
    · intro r etag entry hetag
      simp [State.init] at hetag
    · intro r etag entry hholds
      simp [State.init, HoldsEtag] at hholds
  · intro a e b ha hok hnext
    exact paired_step hclash hok ha hnext

/-- ETag and body of every answer belong together. -/
theorem etagsMatch_of_reachable {setup : Setup} {s : State}
    (hclash : NoEtagClash setup)
    (h : Reachable setup (WritesMatch setup) s) : EtagsMatch setup s := by
  intro r answer ctx hpc hstatus
  have hself := (paired_reachable hclash h).pairs r
  rw [hpc] at hself
  cases answer with
  | notModified origin =>
      have h304 : ctx.status = 304 := hself
      rw [hstatus] at h304
      exact absurd h304 (by decide)
  | hit origin => exact hself
  | shared read joinedAt => exact hself
  | fetched g finishedAt => exact hself

/-!
## One refill
-/

instance (setup : Setup) (etag : Cell) (body : Body) :
    Decidable (TagOf setup etag body) :=
  inferInstanceAs
    (Decidable (setup.toText etag.data = etagGenerate setup.md5 body))

def heldMatches (setup : Setup) (body : Body) : Pc -> Bool
  | Pc.readingEtag (some (some etag)) => decide (TagOf setup etag body)
  | Pc.readingEntry (some etag) none => decide (TagOf setup etag body)
  | _ => true

def writesMatchCheck (setup : Setup) (requests : List ReqId) (s : State)
    (e : Event) : Bool :=
  match e with
  | Event.setEtag r =>
      match s.recv r with
      | Pc.storing _ ctx true _ =>
          (s.store.lookup (setup.stored (setup.key r))).all fun entry =>
            etagGenerate setup.md5 entry.body = etagGenerate setup.md5 ctx.body
      | _ => true
  | Event.setEntry r =>
      match s.recv r with
      | Pc.storing _ ctx _ true =>
          (s.store.lookup (setup.stored (setup.etagKey r))).all
            (fun etag => TagOf setup etag ctx.body.readBack) &&
          requests.all (fun q => heldMatches setup ctx.body.readBack (s.recv q))
      | _ => true
  | _ => true

theorem writesMatch_of_check {requests : List ReqId}
    (hs : OnlyBegun requests s)
    (h : writesMatchCheck setup requests s e = true) :
    WritesMatch setup s e := by
  constructor
  · intro r g ctx bodyPending hgiven hpc entry hentry
    subst hgiven
    simpa [writesMatchCheck, hpc, hentry] using h
  · intro r g ctx etagPending hgiven hpc
    subst hgiven
    simp only [writesMatchCheck, hpc, Bool.and_eq_true] at h
    constructor
    · intro etag hetag
      have hmatch := h.left
      rw [hetag] at hmatch
      exact of_decide_eq_true hmatch
    · intro q etag _ hholds
      by_cases hq : q ∈ requests
      · have hmatch := List.all_eq_true.mp h.right q hq
        rcases hholds with hholds | hholds
        · rw [hholds] at hmatch
          exact of_decide_eq_true hmatch
        · rw [hholds] at hmatch
          exact of_decide_eq_true hmatch
      · have hidle := hs q hq
        rcases hholds with hholds | hholds
        · rw [hidle] at hholds
          exact absurd hholds (by simp)
        · rw [hidle] at hholds
          exact absurd hholds (by simp)

def filled (r : ReqId) (text : JsString) : List Event :=
  missing r ++
    [Event.nextDone r (Response.ok text), Event.setEtag r, Event.setEntry r,
      Event.writesDone r]

def filledAndHit : List Event :=
  filled 0 "a".toList ++ missing 1

theorem etagsMatch_of_reachable_filledAndHit :
    let s := Transition.lastChecked (step Setup.plain)
      (writesMatchCheck Setup.plain [0, 1]) filledAndHit State.init
    AnsweredFrom (s.recv 1) (Read.mk 0 0) ∧ EtagsMatch Setup.plain s := by
  intro s
  have hclash : NoEtagClash Setup.plain :=
    @noEtagClash_of_oneKey Setup.plain (Setup.plain.key 0) (fun _ => rfl)
  have hhit : AnsweredFrom (s.recv 1) (Read.mk 0 0) :=
    Or.inr (Or.inl ⟨State.hitResponse Setup.plain 1
      (some (State.etagCell Setup.plain 0 0 (Response.ok "a".toList)))
      (State.entryCell Setup.plain 0 0 (Response.ok "a".toList)),
      by decide +kernel⟩)
  refine ⟨hhit, ?_⟩
  apply etagsMatch_of_reachable hclash
  exact reachable_lastChecked
    (by simp [BeginsOnly, filledAndHit, filled, missing])
    (fun _ _ ha => writesMatch_of_check ha) (by decide +kernel)

def refilledWhileReading : List Event :=
  filled 0 "a".toList ++
    [Event.begin 2, Event.hitpassDone 2, Event.getEtag 2 false,
      Event.etagDone 2, Event.startPurge 0, Event.clear 0, Event.cleared 0] ++
    filled 1 "b".toList ++ [Event.getEntry 2 false, Event.entryDone 2]

theorem not_etagsMatch_refilledWhileReading :
    ¬ forall setup s, setup.enableEtag = true ->
      (forall r, setup.key r = setup.key 0) ->
      Reachable setup Transition.Any s -> EtagsMatch setup s := by
  intro h
  have hreach : Reachable Setup.plain Transition.Any
      (Transition.last (step Setup.plain) refilledWhileReading State.init) :=
    Transition.reaches_last (by decide +kernel)
  have hmatch := h Setup.plain _ rfl (fun _ => rfl) hreach 2
    (Answer.hit (Read.mk 1 1))
    (State.hitResponse Setup.plain 2
      (some (State.etagCell Setup.plain 0 0 (Response.ok "a".toList)))
      (State.entryCell Setup.plain 1 1 (Response.ok "b".toList)))
    (by decide +kernel) (by decide +kernel)
  rcases hmatch with hbefore | hbody
  · exact absurd hbefore (by decide +kernel)
  · exact absurd hbody (by decide +kernel)

/-- What a handler leaves that answers with an object written as a string. -/
def Response.dated (text : JsString) : Response :=
  { Response.ok text with body := Body.object (JsonValue.str text) }

def datedAndHit : List Event :=
  missing 0 ++
    [Event.nextDone 0 (Response.dated "a".toList), Event.setEtag 0,
      Event.setEntry 0, Event.writesDone 0] ++
    missing 1

/-- The hit is served as a string, with the ETag of its text in quotes. -/
theorem not_etagsMatch_datedAndHit :
    Reachable Setup.plain Transition.Any
        (Transition.last (step Setup.plain) datedAndHit State.init) ∧
      ¬ EtagsMatch Setup.plain
        (Transition.last (step Setup.plain) datedAndHit State.init) := by
  refine ⟨Transition.reaches_last (by decide +kernel), ?_⟩
  intro h
  have hmatch := h 1 (Answer.hit (Read.mk 0 0))
    (State.hitResponse Setup.plain 1
      (some (State.etagCell Setup.plain 0 0 (Response.dated "a".toList)))
      (State.entryCell Setup.plain 0 0 (Response.dated "a".toList)))
    (by decide +kernel) (by decide +kernel)
  rcases hmatch with hbefore | hbody
  · exact absurd hbefore (by decide +kernel)
  · exact absurd hbody (by decide +kernel)

end Recv
end RestCache
