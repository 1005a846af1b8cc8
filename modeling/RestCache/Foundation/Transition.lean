import Mathlib.Logic.Relation

/-!
# Partial step functions and their runs

A component is described by a step function that answers `none` for an event
that is not enabled.  Runs may be restricted to steps that meet a
condition on the event and the state before it, so one vocabulary serves both
"every run" and "every run whose steps all meet the condition".
-/

namespace RestCache
namespace Foundation

namespace Transition

variable {state event : Type _}

def Next (step : state -> event -> Option state)
    (ok : state -> event -> Prop) (s t : state) : Prop :=
  exists e, ok s e ∧ step s e = some t

/-- A finite run all of whose steps meet `ok`. -/
def Reaches (step : state -> event -> Option state)
    (ok : state -> event -> Prop) : state -> state -> Prop :=
  Relation.ReflTransGen (Next step ok)

/-- The condition that every step meets. -/
def Any (_ : state) (_ : event) : Prop :=
  True

/-- Run a list of events, failing as soon as one of them is not enabled. -/
def exec (step : state -> event -> Option state) :
    List event -> state -> Option state
  | [], s => some s
  | e :: rest, s => (step s e).bind (exec step rest)

def last (step : state -> event -> Option state)
    (events : List event) (s : state) : state :=
  (exec step events s).getD s

variable {step : state -> event -> Option state}
  {ok : state -> event -> Prop}

theorem reaches_refl (s : state) : Reaches step ok s s :=
  Relation.ReflTransGen.refl

theorem reaches_trans {s t u : state}
    (hst : Reaches step ok s t) (htu : Reaches step ok t u) :
    Reaches step ok s u :=
  Relation.ReflTransGen.trans hst htu

theorem reaches_tail {s t u : state} {e : event}
    (hst : Reaches step ok s t) (hok : ok t e) (hstep : step t e = some u) :
    Reaches step ok s u :=
  Relation.ReflTransGen.tail hst ⟨e, hok, hstep⟩

theorem reaches_mono {ok' : state -> event -> Prop} {s t : state}
    (hok : forall a e, ok a e -> ok' a e) (h : Reaches step ok s t) :
    Reaches step ok' s t := by
  induction h with
  | refl => exact reaches_refl s
  | tail _ hnext ih =>
      rcases hnext with ⟨e, he, hstep⟩
      exact reaches_tail ih (hok _ e he) hstep

/-!
## The invariant rule

What holds at the start and is preserved by every step holds at the end of
every run.  The second form carries a further fact about the states of the run
itself, for invariants that are stated on top of another one.
-/

theorem reaches_invariant {I : state -> Prop} {s t : state}
    (hinit : I s)
    (hstep : forall a e b, I a -> ok a e -> step a e = some b -> I b)
    (h : Reaches step ok s t) : I t := by
  induction h with
  | refl => exact hinit
  | tail _ hnext ih =>
      rcases hnext with ⟨e, hok, hnext⟩
      exact hstep _ e _ ih hok hnext

theorem reaches_invariant_along {I J : state -> Prop} {s t : state}
    (hinit : I s)
    (hJ : forall a, Reaches step ok s a -> J a)
    (hstep : forall a e b,
      J a -> I a -> ok a e -> step a e = some b -> I b)
    (h : Reaches step ok s t) : I t := by
  induction h with
  | refl => exact hinit
  | tail hrun hnext ih =>
      rcases hnext with ⟨e, hok, hnext⟩
      exact hstep _ e _ (hJ _ hrun) ih hok hnext

/-!
## Executing a list of events
-/

theorem exec_reaches {events : List event} {s t : state}
    (h : exec step events s = some t) : Reaches step Any s t := by
  induction events generalizing s with
  | nil =>
      simp only [exec, Option.some.injEq] at h
      rw [h]
      exact reaches_refl t
  | cons e rest ih =>
      cases hstep : step s e with
      | none => simp [exec, hstep] at h
      | some u =>
          simp only [exec, hstep, Option.bind_some] at h
          exact Relation.ReflTransGen.head ⟨e, trivial, hstep⟩ (ih h)

theorem exec_last {events : List event} {s : state}
    (h : (exec step events s).isSome = true) :
    exec step events s = some (last step events s) := by
  unfold last
  cases hexec : exec step events s with
  | none => simp [hexec] at h
  | some t => rfl

theorem reaches_last {events : List event} {s : state}
    (h : (exec step events s).isSome = true) :
    Reaches step Any s (last step events s) :=
  exec_reaches (exec_last h)

/-!
## Executing a list of events under a check

A condition on steps that speaks of a whole state can often be checked on the
finite part of it that a run touches; `known` is what is known of the rest.
-/

def execChecked (step : state -> event -> Option state)
    (check : state -> event -> Bool) : List event -> state -> Option state
  | [], s => some s
  | e :: rest, s =>
      if check s e then (step s e).bind (execChecked step check rest) else none

def lastChecked (step : state -> event -> Option state)
    (check : state -> event -> Bool) (events : List event) (s : state) :
    state :=
  (execChecked step check events s).getD s

variable {check : state -> event -> Bool} {known : state -> Prop}

theorem execChecked_reaches {events : List event} {s t : state}
    (hknown : forall a e b, known a -> e ∈ events -> step a e = some b ->
      known b)
    (hcheck : forall a e, known a -> check a e = true -> ok a e)
    (hs : known s) (h : execChecked step check events s = some t) :
    Reaches step ok s t ∧ known t := by
  induction events generalizing s with
  | nil =>
      simp only [execChecked, Option.some.injEq] at h
      rw [← h]
      exact ⟨reaches_refl s, hs⟩
  | cons e rest ih =>
      simp only [execChecked] at h
      split at h
      · rename_i hpass
        cases hstep : step s e with
        | none => simp [hstep] at h
        | some u =>
            simp only [hstep, Option.bind_some] at h
            have hu := hknown s e u hs List.mem_cons_self hstep
            have hrest := ih (fun a f b ha hf =>
              hknown a f b ha (List.mem_cons_of_mem e hf)) hu h
            exact ⟨Relation.ReflTransGen.head
              ⟨e, hcheck s e hs hpass, hstep⟩ hrest.left, hrest.right⟩
      · exact absurd h (by simp)

theorem reaches_lastChecked {events : List event} {s : state}
    (hknown : forall a e b, known a -> e ∈ events -> step a e = some b ->
      known b)
    (hcheck : forall a e, known a -> check a e = true -> ok a e)
    (hs : known s)
    (h : (execChecked step check events s).isSome = true) :
    Reaches step ok s (lastChecked step check events s) := by
  unfold lastChecked
  cases hexec : execChecked step check events s with
  | none => simp [hexec] at h
  | some t => exact (execChecked_reaches hknown hcheck hs hexec).left

theorem lastChecked_known {events : List event} {s : state}
    (hknown : forall a e b, known a -> e ∈ events -> step a e = some b ->
      known b)
    (hs : known s) : known (lastChecked step check events s) := by
  have hany : forall a e, known a -> check a e = true -> Any a e :=
    fun _ _ _ _ => trivial
  unfold lastChecked
  cases hexec : execChecked step check events s with
  | none => exact hs
  | some t => exact (execChecked_reaches hknown hany hs hexec).right

end Transition

end Foundation
end RestCache
