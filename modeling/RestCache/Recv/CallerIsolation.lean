import RestCache.Recv.Answers

/-!
# Callers

On a route that keys on the caller a request is answered with nothing that was
read from the origin for somebody else, as long as the callers' identity parts
tell them apart.
-/

namespace RestCache
namespace Recv

open Foundation
open Keys
open Store

variable {setup : Setup} {s t : State} {q r : ReqId} {e : Event}

def Setup.auth (setup : Setup) (r : ReqId) : Option AuthState :=
  (setup.request r).ctx.auth

def Setup.useAuth (setup : Setup) (r : ReqId) : Bool :=
  (setup.request r).route.keys.useAuth

/-- No request on such a route is answered with another caller's content. -/
def CallersIsolated (setup : Setup) (s : State) : Prop :=
  forall r read, setup.useAuth r = true -> AnsweredFrom (s.recv r) read ->
    setup.useAuth read.owner = true ∧
      ¬ Different (setup.auth read.owner) (setup.auth r)

/--
No two callers print alike, and where ETags are stored no caller prints like
another with `_etag` appended.
-/
structure CallersDistinct (setup : Setup) : Prop where
  printed : forall q r, setup.useAuth q = true -> setup.useAuth r = true ->
    ¬ Confusable (setup.auth q) (setup.auth r)
  etags : setup.enableEtag = true ->
    forall q r, setup.useAuth q = true -> setup.useAuth r = true ->
      ¬ Extends (setup.auth q) (setup.auth r) "_etag".toList

/-!
## Keys and callers
-/

theorem authPart_of_key {tail : JsString}
    (h : setup.key q = setup.key r ++ tail) :
    authPart (setup.request q).ctx (setup.request q).route.keys =
      authPart (setup.request r).ctx (setup.request r).route.keys ++ tail :=
  authPart_of_key_append h

theorem authPart_eq (r : ReqId) :
    authPart (setup.request r).ctx (setup.request r).route.keys =
      if setup.useAuth r then generateAuthKey (setup.auth r) else [] :=
  rfl

/-- Requests with the same key have the same caller, if one of them keys on it. -/
theorem same_caller (hdistinct : CallersDistinct setup)
    (hr : setup.useAuth r = true) (h : setup.key q = setup.key r) :
    setup.useAuth q = true ∧ ¬ Different (setup.auth q) (setup.auth r) := by
  have hpart := @authPart_of_key setup q r []
    (by rw [List.append_nil]; exact h)
  rw [List.append_nil, authPart_eq, authPart_eq, hr] at hpart
  cases hq : setup.useAuth q with
  | false =>
      rw [hq] at hpart
      exact absurd hpart.symm (generateAuthKey_ne (by simp))
  | true =>
      rw [hq] at hpart
      refine ⟨rfl, ?_⟩
      intro hdifferent
      exact (generateAuthKey_separates_iff _ _).mpr
        (hdistinct.printed q r hq hr) hdifferent hpart

theorem noEtagClash_of_distinct (hdistinct : CallersDistinct setup)
    (henabled : setup.enableEtag = true) : NoEtagClash setup := by
  intro q r h
  have hpart := authPart_of_key h
  rw [authPart_eq, authPart_eq] at hpart
  cases hq : setup.useAuth q with
  | false =>
      rw [hq] at hpart
      exact absurd (congrArg List.length hpart) (by simp)
  | true =>
      cases hr : setup.useAuth r with
      | false =>
          rw [hq, hr] at hpart
          have hne : generateAuthKey (setup.auth q) ≠ "_etag".toList :=
            generateAuthKey_ne (by decide)
          exact hne hpart
      | true =>
          rw [hq, hr] at hpart
          exact hdistinct.etags henabled q r hq hr
            (extends_of_generateAuthKey hpart)

/-!
## What a request on such a route sees
-/

theorem readingEtag_of_getEtag {timedOut : Bool}
    (h : step setup s (Event.getEtag r timedOut) = some t) :
    UsesEtag (s.recv r) := by
  cases moves_of_step h with
  | recv hmove =>
      cases hmove with
      | getEtag hpc => exact Or.inl ⟨none, hpc⟩
  | purge hmove => cases hmove

theorem sameKey_step (hdistinct : CallersDistinct setup)
    (hs : Consistent setup s)
    (hhoused : Housed setup s) (hetags : EtagsEnabled setup s)
    (hself : SeenOnly (fun read => setup.key read.owner = setup.key r)
      (s.recv r))
    (h : step setup s e = some t) :
    SeenOnly (fun read => setup.key read.owner = setup.key r) (t.recv r) := by
  refine seenOnly_step ?_ ?_ ?_ hself h
  · intro timedOut c he hc
    subst he
    have henabled := hetags r (readingEtag_of_getEtag h)
    exact housed_etagKey hhoused (noEtagClash_of_distinct hdistinct henabled) hc
  · intro timedOut c _ hc
    exact housed_key hhoused (noEtagClash_of_distinct hdistinct) hc
  · intro pending hpending _
    exact (hs.inFlight _ _ hpending).right.right

theorem sameKey_reachable (hdistinct : CallersDistinct setup)
    (h : Reachable setup Transition.Any s) :
    SeenOnly (fun read => setup.key read.owner = setup.key r) (s.recv r) := by
  refine Transition.reaches_invariant_along
    (I := fun a => SeenOnly (fun read => setup.key read.owner = setup.key r)
      (a.recv r))
    (J := Reachable setup Transition.Any) ?_ (fun _ ha => ha) ?_ h
  · trivial
  · intro a e b ha hself _ hnext
    exact sameKey_step hdistinct (consistent_reachable ha)
      (housed_reachable ha) (etagsEnabled_reachable ha) hself hnext

/--
The identity part separates exactly the callers that are not confusable, and in
every run of requests it separates no answer reaches another caller.
-/
theorem callersIsolated_of_distinct (setup : Setup) :
    (forall a b : Option AuthState,
      (Different a b -> generateAuthKey a ≠ generateAuthKey b) <->
        ¬ Confusable a b) ∧
    (CallersDistinct setup -> forall s, Reachable setup Transition.Any s ->
      CallersIsolated setup s) := by
  constructor
  · exact generateAuthKey_separates_iff
  · intro hdistinct s h r read hr hfrom
    have hkey := seenOnly_answered (sameKey_reachable hdistinct h) hfrom
    exact same_caller hdistinct hr hkey

/-!
## Two callers of one custom strategy
-/

def Setup.callers (name : JsString) (id : ReqId -> JsString) : Setup :=
  { Setup.plain with
    request := fun r =>
      let plain := Request.plain plainPath plainPath_noQuery
      { plain with
        ctx :=
          { plain.ctx with
            auth := some
              { strategy := some { name := some name }
                credentials := some
                  { id := some (CredentialId.number (id r)), type := none } } }
        route :=
          { plain.route with
            keys := { plain.route.keys with useAuth := true } } } }

def hitAfterStore : List Event :=
  missing 0 ++
    [Event.nextDone 0 (Response.ok "a".toList), Event.setEtag 0,
      Event.setEntry 0, Event.writesDone 0] ++
    missing 1

def digits (r : ReqId) : JsString :=
  if r = 0 then "1".toList else "2".toList

theorem callersDistinct_users :
    CallersDistinct (Setup.callers usersPermissionsName digits) := by
  have hkind : forall r,
      strategyKind ((Setup.callers usersPermissionsName digits).auth r) =
        Kind.user := by
    intro r
    show Kind.ofName usersPermissionsName = Kind.user
    exact if_pos rfl
  have htext : forall r,
      identityText Kind.user
        ((Setup.callers usersPermissionsName digits).auth r) = digits r :=
    fun _ => rfl
  have hlength : forall r, (digits r).length = 1 := by
    intro r
    unfold digits
    split <;> rfl
  constructor
  · intro q r _ _ h
    have hsame := h.right.right
    rw [hkind, hkind, htext, htext] at hsame
    apply h.right.left
    show some (CredentialId.number (digits q)) =
      some (CredentialId.number (digits r))
    rw [hsame]
  · intro _ q r _ _ h
    unfold Extends at h
    rw [hkind, hkind] at h
    have hlong := congrArg List.length h.right
    rw [htext, htext, List.length_append, hlength, hlength] at hlong
    exact absurd hlong (by decide)

theorem callersIsolated_of_distinct_users :
    let setup := Setup.callers usersPermissionsName digits
    let s := Transition.last (step setup) hitAfterStore State.init
    s.recv 1 = Pc.inNext 0 ∧ CallersIsolated setup s := by
  constructor
  · decide +kernel
  · exact (callersIsolated_of_distinct _).right callersDistinct_users _
      (Transition.reaches_last (by decide +kernel))

theorem not_callersIsolated_hitAfterStore :
    ¬ forall setup s, (forall r, setup.useAuth r = true) ->
      Reachable setup Transition.Any s -> CallersIsolated setup s := by
  intro h
  let setup := Setup.callers "oauth".toList digits
  have hreach : Reachable setup Transition.Any
      (Transition.last (step setup) hitAfterStore State.init) :=
    Transition.reaches_last (by decide +kernel)
  have hhit : AnsweredFrom
      ((Transition.last (step setup) hitAfterStore State.init).recv 1)
      (Read.mk 0 0) :=
    Or.inr (Or.inl ⟨State.hitResponse setup 1 (some (State.etagCell setup 0 0
      (Response.ok "a".toList))) (State.entryCell setup 0 0
      (Response.ok "a".toList)), by decide +kernel⟩)
  have hsame := (h setup _ (fun _ => rfl) hreach 1 _ rfl hhit).right
  exact hsame (Or.inr (by decide +kernel))

end Recv
end RestCache
