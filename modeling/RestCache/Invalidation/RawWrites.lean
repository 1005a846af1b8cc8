import RestCache.Foundation.Transition
import RestCache.Invalidation.AutomaticPurge

/-!
# Raw writes and the document service writes around them

A raw database write is left to the document service write whose content type is
in progress on its async call chain.  A chain is inherited by everything that is
started from it, also by what outlives the call, and a call may fail.
-/

namespace RestCache
namespace Invalidation

open Foundation
open Transition
open Config

/-!
## Writes and scopes
-/

/-- A write with `strapi.db.query` that landed, and the event that follows it. -/
structure RawWrite where
  event : LifecycleEvent
  rows : Nat
  isWrite : event.action ∈ WRITE_LIFECYCLES
  counted : forall count, event.count = some count -> count = rows

inductive ScopeStatus where
  | running
  | returned
  | failed
deriving DecidableEq

/-- A document service write; `inProgress` is the store of its async context. -/
structure Scope where
  doc : DocumentServiceContext
  inProgress : List JsString
  enclosing : List Nat
  status : ScopeStatus
deriving DecidableEq

abbrev AsyncContext := Option Nat

/-- A raw write with the store of its async context, and the patterns of each
purge that started after it had landed. -/
structure Landed where
  write : RawWrite
  inProgress : List JsString
  enclosing : List Nat
  hooked : Bool
  purges : List (List Pattern)

structure Writes where
  scopes : List Scope
  landed : List Landed

namespace Writes

def init : Writes where
  scopes := []
  landed := []

def Exists (s : Writes) : AsyncContext -> Prop
  | none => True
  | some id => id < s.scopes.length

instance (s : Writes) (ctx : AsyncContext) : Decidable (s.Exists ctx) := by
  cases ctx with
  | none => exact inferInstanceAs (Decidable True)
  | some id => exact inferInstanceAs (Decidable (id < s.scopes.length))

/-- `documentServiceWrites.getStore()`, where `undefined` has no uids. -/
def getStore (s : Writes) (ctx : AsyncContext) : List JsString :=
  match ctx.bind (fun id => s.scopes[id]?) with
  | none => []
  | some scope => scope.inProgress

def enclosing (s : Writes) (ctx : AsyncContext) : List Nat :=
  match ctx.bind (fun id => s.scopes[id]?) with
  | none => []
  | some scope => scope.enclosing

/-- A purge starts behind all that landed, unless its patterns cannot be built. -/
def startPurge (patterns : Except ClearError (List Pattern)) (s : Writes) :
    Writes :=
  match patterns with
  | Except.error _ => s
  | Except.ok issued =>
      { s with
        landed := s.landed.map fun w =>
          { w with purges := w.purges ++ [issued] } }

def settle (id : Nat) (status : ScopeStatus) (s : Writes) : Writes :=
  { s with
    scopes := s.scopes.modify id fun scope => { scope with status } }

def setHooked (i : Nat) (s : Writes) : Writes :=
  { s with landed := s.landed.modify i fun w => { w with hooked := true } }

end Writes

inductive WriteEvent where
  | enter (ctx : AsyncContext) (doc : DocumentServiceContext)
  | land (ctx : AsyncContext) (write : RawWrite)
  | hook (i : Nat)
  | finish (id : Nat) (resultId : Option JsString)
  | fail (id : Nat)

section Steps

variable (strategy : RelatedStrategy) (lower : CaseMapping)
  (embedding : JsString -> List JsString)

/-- The event's own purge is left to a document service write. -/
def Landed.swallowed (w : Landed) : Bool :=
  w.write.event.uid ∈ w.inProgress

def Landed.hookPurges (w : Landed) : Bool :=
  lifecyclePurges strategy (fun uid => uid ∈ w.inProgress) w.write.event

def documentPurge (doc : DocumentServiceContext) (resultId : Option JsString)
    (s : Writes) : Writes :=
  (documentPatterns strategy lower embedding doc resultId).elim s
    (fun patterns => s.startPurge patterns)

def lifecyclePurge (w : Landed) (s : Writes) : Writes :=
  if w.hookPurges strategy then
    s.startPurge (strategy.clearPatterns lower w.write.event.uid ∅ true)
  else
    s

def writeStep (s : Writes) : WriteEvent -> Option Writes
  | WriteEvent.enter ctx doc =>
      if s.Exists ctx then
        if doc.action ∈ WRITE_ACTIONS then
          some { s with
            scopes := s.scopes ++
              [{ doc
                 inProgress := s.getStore ctx ++ [doc.uid]
                 enclosing := s.enclosing ctx ++ [s.scopes.length]
                 status := ScopeStatus.running }] }
        else
          some s
      else
        none
  | WriteEvent.land ctx write =>
      if s.Exists ctx then
        some { s with
          landed := s.landed ++
            [{ write
               inProgress := s.getStore ctx
               enclosing := s.enclosing ctx
               hooked := false
               purges := [] }] }
      else
        none
  | WriteEvent.hook i =>
      s.landed[i]?.bind fun w =>
        if w.hooked then none
        else
          some (lifecyclePurge strategy lower w (s.setHooked i))
  | WriteEvent.finish id resultId =>
      s.scopes[id]?.bind fun scope =>
        if scope.status = ScopeStatus.running then
          some (documentPurge strategy lower embedding scope.doc resultId
            (s.settle id ScopeStatus.returned))
        else
          none
  | WriteEvent.fail id =>
      s.scopes[id]?.bind fun scope =>
        if scope.status = ScopeStatus.running then
          some (s.settle id ScopeStatus.failed)
        else
          none

/-- The writes that must be purged: rows of a cached content type of a plugin. -/
def RawWrite.Required (write : RawWrite) : Prop :=
  strategy.isCached write.event.uid = true ∧
    "plugin::".toList.isPrefixOf write.event.uid = true ∧ 0 < write.rows

/-- A purge that started behind the write issued all wildcard patterns of its
content type. -/
def Landed.Purged (w : Landed) : Prop :=
  exists issued, issued ∈ w.purges ∧
    strategy.IssuedFor lower w.write.event.uid issued

/-- Among these document service writes, one to the content type is running. -/
def Running (s : Writes) (ids : List Nat) (uid : JsString) : Prop :=
  exists id scope, id ∈ ids ∧ s.scopes[id]? = some scope ∧
    scope.doc.uid = uid ∧ scope.status = ScopeStatus.running

/-- A purge behind the write is still to come. -/
def Owed (s : Writes) (w : Landed) : Prop :=
  (w.hooked = false ∧ w.swallowed = false) ∨
    (w.swallowed = true ∧ Running s w.enclosing w.write.event.uid)

/-- Every write that must be purged was purged or is going to be. -/
def NoneLost (s : Writes) : Prop :=
  forall w, w ∈ s.landed -> w.write.Required strategy ->
    w.Purged strategy lower ∨ Owed s w

structure Quiet (s : Writes) : Prop where
  hooked : forall w, w ∈ s.landed -> w.hooked = true
  ended : forall scope, scope ∈ s.scopes ->
    scope.status ≠ ScopeStatus.running

def AllPurged (s : Writes) : Prop :=
  forall w, w ∈ s.landed -> w.write.Required strategy ->
    w.Purged strategy lower

/-- The content types that the purge behind a document service write covers. -/
def documentCovers (doc : DocumentServiceContext) (resultId : Option JsString) :
    List JsString :=
  if strategy.isCached doc.uid then
    let documentId := resolveDocumentId doc resultId
    strategy.coveredTypes lower doc.uid (scopeOf documentId) documentId.isNone
  else if strategy.clearRelatedCache = true ∧
      (strategy.wildcardPatterns lower (embedding doc.uid)).isOk = true then
    embedding doc.uid
  else
    []

/--
The wildcard patterns behind an event can be built; a raw write that is left to a
document service write lands while one to its content type is running on its
call chain; and where such a write ends, what was left to it is purged, or its
purge covers that content type, or it is left to another one as well.
-/
def Answered (s : Writes) : WriteEvent -> Prop
  | WriteEvent.enter _ _ => True
  | WriteEvent.land ctx write =>
      write.Required strategy -> write.event.uid ∈ s.getStore ctx ->
        Running s (s.enclosing ctx) write.event.uid
  | WriteEvent.hook i =>
      forall w, s.landed[i]? = some w -> w.write.Required strategy ->
        w.swallowed = false ->
          (strategy.clearPatterns lower w.write.event.uid ∅ true).isOk = true
  | WriteEvent.finish id resultId =>
      forall w scope, w ∈ s.landed -> s.scopes[id]? = some scope ->
        w.write.Required strategy -> w.swallowed = true ->
          w.Purged strategy lower ∨
            w.write.event.uid ∈
              documentCovers strategy lower embedding scope.doc resultId ∨
            Running s (w.enclosing.filter (· ≠ id)) w.write.event.uid
  | WriteEvent.fail id =>
      forall w, w ∈ s.landed -> w.write.Required strategy ->
        w.swallowed = true ->
          w.Purged strategy lower ∨
            Running s (w.enclosing.filter (· ≠ id)) w.write.event.uid

end Steps

/-!
## Purges and scopes
-/

section Lemmas

variable {strategy : RelatedStrategy} {lower : CaseMapping}
  {embedding : JsString -> List JsString} {s t : Writes}

theorem mem_startPurge {patterns : Except ClearError (List Pattern)}
    {w : Landed} (h : w ∈ (s.startPurge patterns).landed) :
    exists w', w' ∈ s.landed ∧ w.write = w'.write ∧
      w.inProgress = w'.inProgress ∧ w.enclosing = w'.enclosing ∧
        w.hooked = w'.hooked ∧ (forall issued, issued ∈ w.purges <->
          issued ∈ w'.purges ∨ patterns = Except.ok issued) := by
  cases patterns with
  | error e => exact ⟨w, h, rfl, rfl, rfl, rfl, fun issued => by simp⟩
  | ok issued =>
      rcases List.mem_map.mp h with ⟨w', hmem, rfl⟩
      exact ⟨w', hmem, rfl, rfl, rfl, rfl, fun other => by
        simp [eq_comm (a := other)]⟩

theorem startPurge_scopes (patterns : Except ClearError (List Pattern)) :
    (s.startPurge patterns).scopes = s.scopes := by
  cases patterns <;> rfl

/-- A purge that covers a write purges it, and it leaves what is owed to others. -/
theorem noneLost_startPurge {patterns : Except ClearError (List Pattern)}
    (h : forall w, w ∈ s.landed -> w.write.Required strategy ->
      w.Purged strategy lower ∨
        (exists issued, patterns = Except.ok issued ∧
          strategy.IssuedFor lower w.write.event.uid issued) ∨ Owed s w) :
    NoneLost strategy lower (s.startPurge patterns) := by
  intro w hw hrequired
  rcases mem_startPurge hw with
    ⟨w', hmem, hwrite, hprogress, henclosing, hhooked, hpurges⟩
  rw [hwrite] at hrequired
  rcases h w' hmem hrequired with
    ⟨issued, hissued, hcovers⟩ | ⟨issued, hissued, hcovers⟩ | howed
  · exact Or.inl ⟨issued, (hpurges issued).mpr (Or.inl hissued), hwrite ▸ hcovers⟩
  · exact Or.inl ⟨issued, (hpurges issued).mpr (Or.inr hissued), hwrite ▸ hcovers⟩
  · apply Or.inr
    unfold Owed Running Landed.swallowed at howed ⊢
    rw [hwrite, hprogress, henclosing, hhooked, startPurge_scopes]
    exact howed

theorem issuedFor_of_documentCovers {doc : DocumentServiceContext}
    {resultId : Option JsString} {uid : JsString}
    (h : uid ∈ documentCovers strategy lower embedding doc resultId) :
    exists issued,
      documentPatterns strategy lower embedding doc resultId =
          some (Except.ok issued) ∧
        strategy.IssuedFor lower uid issued := by
  unfold documentCovers at h
  unfold documentPatterns
  split at h
  · rename_i hcached
    rw [if_pos hcached]
    rcases issuedFor_of_covered h with ⟨issued, hissued, hcovers⟩
    exact ⟨issued, congrArg some hissued, hcovers⟩
  · rename_i huncached
    rw [if_neg huncached]
    split at h
    · rename_i hbuilt
      rcases exists_of_isOk hbuilt.right with ⟨issued, hissued⟩
      have hsome : ¬ (strategy.clearRelatedCache = false ∨
          embedding doc.uid = []) := by
        rintro (hoff | hnone)
        · rw [hoff] at hbuilt
          exact Bool.false_ne_true hbuilt.left
        · rw [hnone] at h
          exact absurd h List.not_mem_nil
      rw [if_neg hsome]
      exact ⟨issued, congrArg some hissued, wildcardPatterns_issued hissued h⟩
    · exact absurd h List.not_mem_nil

theorem noneLost_documentPurge {doc : DocumentServiceContext}
    {resultId : Option JsString}
    (h : forall w, w ∈ s.landed -> w.write.Required strategy ->
      w.Purged strategy lower ∨
        w.write.event.uid ∈
          documentCovers strategy lower embedding doc resultId ∨ Owed s w) :
    NoneLost strategy lower
      (documentPurge strategy lower embedding doc resultId s) := by
  unfold documentPurge
  cases hpatterns : documentPatterns strategy lower embedding doc resultId with
  | none =>
      intro w hw hrequired
      rcases h w hw hrequired with hdone | hcovers | howed
      · exact Or.inl hdone
      · rcases issuedFor_of_documentCovers hcovers with ⟨issued, hissued, _⟩
        rw [hpatterns] at hissued
        exact absurd hissued (by simp)
      · exact Or.inr howed
  | some patterns =>
      apply noneLost_startPurge
      intro w hw hrequired
      rcases h w hw hrequired with hdone | hcovers | howed
      · exact Or.inl hdone
      · rcases issuedFor_of_documentCovers hcovers with
          ⟨issued, hissued, hall⟩
        rw [hpatterns, Option.some.injEq] at hissued
        exact Or.inr (Or.inl ⟨issued, hissued, hall⟩)
      · exact Or.inr (Or.inr howed)

theorem running_settle {id : Nat} {status : ScopeStatus} {ids : List Nat}
    {uid : JsString} (h : Running s (ids.filter (· ≠ id)) uid) :
    Running (s.settle id status) ids uid := by
  rcases h with ⟨other, scope, hmem, hscope, huid, hrunning⟩
  rcases List.mem_filter.mp hmem with ⟨hmem, hne⟩
  refine ⟨other, scope, hmem, ?_, huid, hrunning⟩
  have hne : id ≠ other := by
    intro heq
    simp [heq] at hne
  rw [Writes.settle, List.getElem?_modify_ne _ _ hne]
  exact hscope

theorem running_append {scopes : List Scope} {ids : List Nat}
    {uid : JsString} (h : Running s ids uid) :
    Running { s with scopes := s.scopes ++ scopes } ids uid := by
  rcases h with ⟨id, scope, hmem, hscope, huid, hrunning⟩
  refine ⟨id, scope, hmem, ?_, huid, hrunning⟩
  show (s.scopes ++ scopes)[id]? = some scope
  rw [List.getElem?_append_left (List.getElem?_eq_some_iff.mp hscope).1]
  exact hscope

theorem hookPurges_of_required {w : Landed}
    (hrequired : w.write.Required strategy) (h : w.swallowed = false) :
    w.hookPurges strategy = true := by
  rcases hrequired with ⟨hcached, hplugin, hrows⟩
  have hmodel : w.write.event.uid ∈ lifecycleModels strategy := by
    unfold lifecycleModels
    rw [List.mem_filter]
    refine ⟨?_, hplugin⟩
    rcases Option.isSome_iff_exists.mp hcached with ⟨cacheConf, hget⟩
    have huid := List.find?_some hget
    rw [decide_eq_true_iff] at huid
    rw [← huid]
    exact List.mem_map_of_mem (List.mem_of_find?_eq_some hget)
  have htouched : touchedNothing w.write.event = false := by
    unfold touchedNothing
    rw [Bool.and_eq_false_iff]
    apply Or.inr
    rw [decide_eq_false_iff_not]
    intro hcount
    have hnone := w.write.counted 0 hcount
    rw [← hnone] at hrows
    exact absurd hrows (Nat.lt_irrefl 0)
  have hleft : decide (w.write.event.uid ∈ w.inProgress) = false := h
  show (decide _ && decide _ &&
    !(decide (w.write.event.uid ∈ w.inProgress) || !strategy.isCached _) &&
      !touchedNothing _) = true
  rw [hleft, hcached, htouched, decide_eq_true hmodel,
    decide_eq_true w.write.isWrite]
  rfl

end Lemmas

/-!
## What a step keeps
-/

section Steps

variable {strategy : RelatedStrategy} {lower : CaseMapping}
  {embedding : JsString -> List JsString} {s t : Writes}

theorem noneLost_enter {ctx : AsyncContext} {doc : DocumentServiceContext}
    (hs : NoneLost strategy lower s)
    (h : writeStep strategy lower embedding s (WriteEvent.enter ctx doc) =
      some t) : NoneLost strategy lower t := by
  simp only [writeStep] at h
  split at h
  · split at h
    · rw [← Option.some.inj h]
      intro w hw hrequired
      rcases hs w hw hrequired with hdone | howed | howed
      · exact Or.inl hdone
      · exact Or.inr (Or.inl howed)
      · exact Or.inr (Or.inr ⟨howed.left, running_append howed.right⟩)
    · rw [← Option.some.inj h]
      exact hs
  · exact absurd h (by simp)

theorem noneLost_land {ctx : AsyncContext} {write : RawWrite}
    (hs : NoneLost strategy lower s)
    (hok : Answered strategy lower embedding s (WriteEvent.land ctx write))
    (h : writeStep strategy lower embedding s (WriteEvent.land ctx write) =
      some t) : NoneLost strategy lower t := by
  simp only [writeStep] at h
  split at h
  · rw [← Option.some.inj h]
    intro w hw hrequired
    rcases List.mem_append.mp hw with hw | hw
    · exact hs w hw hrequired
    · rw [List.mem_singleton] at hw
      subst hw
      apply Or.inr
      by_cases hleft : write.event.uid ∈ s.getStore ctx
      · exact Or.inr ⟨decide_eq_true hleft, hok hrequired hleft⟩
      · exact Or.inl ⟨rfl, decide_eq_false hleft⟩
  · exact absurd h (by simp)

theorem mem_setHooked {i : Nat} {w : Landed} (h : w ∈ (s.setHooked i).landed) :
    exists w', w' ∈ s.landed ∧
      (w = w' ∨ (s.landed[i]? = some w' ∧ w = { w' with hooked := true })) := by
  rcases List.mem_iff_getElem?.mp h with ⟨j, hj⟩
  rw [Writes.setHooked] at hj
  by_cases hij : i = j
  · subst hij
    rw [List.getElem?_modify_eq] at hj
    rcases Option.map_eq_some_iff.mp hj with ⟨w', hw', heq⟩
    exact ⟨w', List.mem_of_getElem? hw', Or.inr ⟨hw', heq.symm⟩⟩
  · rw [List.getElem?_modify_ne _ _ hij] at hj
    exact ⟨w, List.mem_of_getElem? hj, Or.inl rfl⟩

theorem lifecyclePurge_issued {w : Landed}
    (hbuilt : (strategy.clearPatterns lower w.write.event.uid ∅ true).isOk = true) :
    exists issued, strategy.clearPatterns lower w.write.event.uid ∅ true =
        Except.ok issued ∧
      strategy.IssuedFor lower w.write.event.uid issued := by
  apply issuedFor_of_covered
  rcases exists_of_isOk hbuilt with ⟨issued, hissued⟩
  unfold RelatedStrategy.coveredTypes
  rw [hissued]
  exact List.mem_append_left _ List.mem_cons_self

theorem noneLost_hook {i : Nat} (hs : NoneLost strategy lower s)
    (hok : Answered strategy lower embedding s (WriteEvent.hook i))
    (h : writeStep strategy lower embedding s (WriteEvent.hook i) = some t) :
    NoneLost strategy lower t := by
  simp only [writeStep] at h
  rcases Option.bind_eq_some_iff.mp h with ⟨hooked, hi, h⟩
  split at h
  · exact absurd h (by simp)
  · rw [← Option.some.inj h]
    have hlanded : forall w, w ∈ (s.setHooked i).landed ->
        w.write.Required strategy -> w.Purged strategy lower ∨
          (w.write = hooked.write ∧ hooked.swallowed = false) ∨
            Owed (s.setHooked i) w := by
      intro w hw hrequired
      rcases mem_setHooked hw with ⟨w', hmem, rfl | ⟨hw', rfl⟩⟩
      · rcases hs w hmem hrequired with hdone | howed
        · exact Or.inl hdone
        · exact Or.inr (Or.inr howed)
      · rw [hi, Option.some.injEq] at hw'
        subst hw'
        rcases hs hooked hmem hrequired with hdone | howed | howed
        · exact Or.inl hdone
        · exact Or.inr (Or.inl ⟨rfl, howed.right⟩)
        · exact Or.inr (Or.inr (Or.inr howed))
    unfold lifecyclePurge
    split
    · apply noneLost_startPurge
      intro w hw hrequired
      rcases hlanded w hw hrequired with hdone | ⟨hwrite, hleft⟩ | howed
      · exact Or.inl hdone
      · rw [hwrite] at hrequired ⊢
        exact Or.inr (Or.inl
          (lifecyclePurge_issued (hok hooked hi hrequired hleft)))
      · exact Or.inr (Or.inr howed)
    · rename_i hnone
      intro w hw hrequired
      rcases hlanded w hw hrequired with hdone | ⟨hwrite, hleft⟩ | howed
      · exact Or.inl hdone
      · rw [hwrite] at hrequired
        exact absurd (hookPurges_of_required hrequired hleft) hnone
      · exact Or.inr howed

theorem noneLost_finish {id : Nat} {resultId : Option JsString}
    (hs : NoneLost strategy lower s)
    (hok : Answered strategy lower embedding s (WriteEvent.finish id resultId))
    (h : writeStep strategy lower embedding s (WriteEvent.finish id resultId) =
      some t) : NoneLost strategy lower t := by
  simp only [writeStep] at h
  rcases Option.bind_eq_some_iff.mp h with ⟨scope, hscope, h⟩
  split at h
  · rw [← Option.some.inj h]
    apply noneLost_documentPurge
    intro w hw hrequired
    rcases hs w hw hrequired with hdone | howed | howed
    · exact Or.inl hdone
    · exact Or.inr (Or.inr (Or.inl howed))
    · rcases hok w scope hw hscope hrequired howed.left with
        hdone | hcovers | hother
      · exact Or.inl hdone
      · exact Or.inr (Or.inl hcovers)
      · exact Or.inr (Or.inr (Or.inr ⟨howed.left, running_settle hother⟩))
  · exact absurd h (by simp)

theorem noneLost_fail {id : Nat} (hs : NoneLost strategy lower s)
    (hok : Answered strategy lower embedding s (WriteEvent.fail id))
    (h : writeStep strategy lower embedding s (WriteEvent.fail id) = some t) :
    NoneLost strategy lower t := by
  simp only [writeStep] at h
  rcases Option.bind_eq_some_iff.mp h with ⟨scope, hscope, h⟩
  split at h
  · rw [← Option.some.inj h]
    intro w hw hrequired
    rcases hs w hw hrequired with hdone | howed | howed
    · exact Or.inl hdone
    · exact Or.inr (Or.inl howed)
    · rcases hok w hw hrequired howed.left with hdone | hother
      · exact Or.inl hdone
      · exact Or.inr (Or.inr ⟨howed.left, running_settle hother⟩)
  · exact absurd h (by simp)

theorem noneLost_step {e : WriteEvent} (hs : NoneLost strategy lower s)
    (hok : Answered strategy lower embedding s e)
    (h : writeStep strategy lower embedding s e = some t) :
    NoneLost strategy lower t := by
  cases e with
  | enter ctx doc => exact noneLost_enter hs h
  | land ctx write => exact noneLost_land hs hok h
  | hook i => exact noneLost_hook hs hok h
  | finish id resultId => exact noneLost_finish hs hok h
  | fail id => exact noneLost_fail hs hok h

theorem noneLost_reaches
    (h : Reaches (writeStep strategy lower embedding)
      (Answered strategy lower embedding) Writes.init s) :
    NoneLost strategy lower s := by
  apply reaches_invariant _ _ h
  · intro w hw
    exact absurd hw List.not_mem_nil
  · exact fun a e b ha hok hstep => noneLost_step ha hok hstep

theorem allPurged_of_quiet (hs : NoneLost strategy lower s) (hquiet : Quiet s) :
    AllPurged strategy lower s := by
  intro w hw hrequired
  rcases hs w hw hrequired with hdone | howed | howed
  · exact hdone
  · rw [hquiet.hooked w hw] at howed
    exact absurd howed.left (by simp)
  · rcases howed.right with ⟨id, scope, _, hscope, _, hrunning⟩
    exact absurd hrunning
      (hquiet.ended scope (List.mem_of_getElem? hscope))

end Steps

/--
Where every write that is left to a document service write is answered by one,
no write is lost: a purge with all wildcard patterns of its content type started
behind it, or is still to come.
-/
theorem landed_purged {strategy : RelatedStrategy} {lower : CaseMapping}
    {embedding : JsString -> List JsString} {s : Writes}
    (h : Reaches (writeStep strategy lower embedding)
      (Answered strategy lower embedding) Writes.init s) :
    NoneLost strategy lower s ∧ (Quiet s -> AllPurged strategy lower s) := by
  have hs := noneLost_reaches h
  exact ⟨hs, allPurged_of_quiet hs⟩

/-!
## An example
-/

def user : JsString :=
  "plugin::users-permissions.user".toList

def cachedUsers (routes : List CacheRouteConfig) : RelatedStrategy where
  enableDocumentServiceMiddleware := true
  contentTypes := [{ contentType := user, routes }]
  clearRelatedCache := false
  relatedContentTypeUid _ := [user]

def usersRoute : CacheRouteConfig where
  path := "/api/users".toList
  method := "GET".toList
  paramNames := []

def userRoute : CacheRouteConfig where
  path := "/api/users/:id".toList
  method := "GET".toList
  paramNames := ["id".toList]

def userUpdate : DocumentServiceContext where
  action := "update".toList
  uid := user
  documentId := some "k3d9".toList

def userRemoved : RawWrite where
  event := { action := "afterDelete".toList, uid := user, count := none }
  rows := 1
  isWrite := by decide
  counted := by simp

theorem userRemoved_required (routes : List CacheRouteConfig) :
    userRemoved.Required (cachedUsers routes) :=
  ⟨rfl, by decide, by decide⟩

/-- The body of an update removes a user, and then the update returns. -/
def updateAndRemove : List WriteEvent :=
  [WriteEvent.enter none userUpdate, WriteEvent.land (some 0) userRemoved,
    WriteEvent.hook 0, WriteEvent.finish 0 none]

/-- The body throws behind the removal, which is not rolled back. -/
def updateThrows : List WriteEvent :=
  [WriteEvent.enter none userUpdate, WriteEvent.land (some 0) userRemoved,
    WriteEvent.hook 0, WriteEvent.fail 0]

/-- The removal is left running and lands when the update has returned. -/
def updateLingers : List WriteEvent :=
  [WriteEvent.enter none userUpdate, WriteEvent.finish 0 none,
    WriteEvent.land (some 0) userRemoved, WriteEvent.hook 0]

section Example

def userStep (routes : List CacheRouteConfig) :
    Writes -> WriteEvent -> Option Writes :=
  writeStep (cachedUsers routes) CaseMapping.latin1 (fun _ => [])

def UserAnswered (routes : List CacheRouteConfig) :
    Writes -> WriteEvent -> Prop :=
  Answered (cachedUsers routes) CaseMapping.latin1 (fun _ => [])

theorem updateAndRemove_answered :
    Reaches (userStep [usersRoute]) (UserAnswered [usersRoute]) Writes.init
      (last (userStep [usersRoute]) updateAndRemove Writes.init) := by
  have hinit : Reaches (userStep [usersRoute]) (UserAnswered [usersRoute])
      Writes.init Writes.init :=
    reaches_refl Writes.init
  have hentered := reaches_tail hinit
    (e := WriteEvent.enter none userUpdate) trivial
    (rfl : userStep [usersRoute] _ _ = some _)
  have hlanded := reaches_tail hentered
    (e := WriteEvent.land (some 0) userRemoved)
    (fun _ _ => ⟨0, _, List.mem_cons_self, rfl, rfl, rfl⟩)
    (rfl : userStep [usersRoute] _ _ = some _)
  have hhooked := reaches_tail hlanded (e := WriteEvent.hook 0)
    (by
      intro w hw _ hleft
      rw [← Option.some.inj hw] at hleft
      exact absurd hleft (by decide))
    (rfl : userStep [usersRoute] _ _ = some _)
  refine reaches_tail hhooked (e := WriteEvent.finish 0 none) ?_ rfl
  intro w scope hw hscope _ _
  apply Or.inr
  apply Or.inl
  rw [← Option.some.inj hscope, List.mem_singleton.mp hw]
  decide

/-- The list is the only cached route, so the update's purge covers the users. -/
theorem updateAndRemove_purged :
    AllPurged (cachedUsers [usersRoute]) CaseMapping.latin1
      (last (userStep [usersRoute]) updateAndRemove Writes.init) := by
  refine (landed_purged updateAndRemove_answered).right ⟨?_, ?_⟩
  · intro w hw
    rw [List.mem_singleton.mp hw]
  · intro scope hscope
    rw [List.mem_singleton.mp hscope]
    decide

theorem not_allPurged {routes : List CacheRouteConfig}
    {events : List WriteEvent} {w : Landed} {s : Writes}
    (hexec : exec (userStep routes) events Writes.init = some s)
    (hquiet : Quiet s) (hw : w ∈ s.landed) (hwrite : w.write = userRemoved)
    (hpurged : ¬ w.Purged (cachedUsers routes) CaseMapping.latin1) :
    ¬ forall s, Reaches (userStep routes) Any Writes.init s ->
      NoneLost (cachedUsers routes) CaseMapping.latin1 s ∧
        (Quiet s -> AllPurged (cachedUsers routes) CaseMapping.latin1 s) := by
  intro h
  exact hpurged ((h s (exec_reaches hexec)).right hquiet w hw
    (hwrite ▸ userRemoved_required routes))

/-- What landed in the scope of a write that throws is not purged. -/
theorem updateThrows_not_purged :
    ¬ forall s, Reaches (userStep [usersRoute]) Any Writes.init s ->
      NoneLost (cachedUsers [usersRoute]) CaseMapping.latin1 s ∧
        (Quiet s ->
          AllPurged (cachedUsers [usersRoute]) CaseMapping.latin1 s) := by
  apply @not_allPurged [usersRoute] updateThrows _ _ rfl _ List.mem_cons_self rfl
  · rintro ⟨issued, hissued, _⟩
    exact absurd hissued List.not_mem_nil
  · constructor
    · intro w hw
      rw [List.mem_singleton.mp hw]
    · intro scope hscope
      rw [List.mem_singleton.mp hscope]
      decide

/-- Nor is what lands when the write has returned. -/
theorem updateLingers_not_purged :
    ¬ forall s, Reaches (userStep [usersRoute]) Any Writes.init s ->
      NoneLost (cachedUsers [usersRoute]) CaseMapping.latin1 s ∧
        (Quiet s ->
          AllPurged (cachedUsers [usersRoute]) CaseMapping.latin1 s) := by
  apply @not_allPurged [usersRoute] updateLingers _ _ rfl _ List.mem_cons_self rfl
  · rintro ⟨issued, hissued, _⟩
    exact absurd hissued List.not_mem_nil
  · constructor
    · intro w hw
      rw [List.mem_singleton.mp hw]
    · intro scope hscope
      rw [List.mem_singleton.mp hscope]
      decide

/-- Nor is it by the update's own purge, where users are cached one by one. -/
theorem updateScoped_not_purged :
    ¬ forall s, Reaches (userStep [usersRoute, userRoute]) Any Writes.init s ->
      NoneLost (cachedUsers [usersRoute, userRoute]) CaseMapping.latin1 s ∧
        (Quiet s -> AllPurged (cachedUsers [usersRoute, userRoute])
          CaseMapping.latin1 s) := by
  apply @not_allPurged [usersRoute, userRoute] updateAndRemove _ _ rfl _
    List.mem_cons_self rfl
  · rintro ⟨issued, hissued, regExps, hregExps, hsub⟩
    have hclear : (cachedUsers [usersRoute, userRoute]).clearPatterns
        CaseMapping.latin1 user (scopeOf (some "k3d9".toList)) false =
          Except.ok issued := by
      rw [List.mem_singleton.mp hissued]
      rfl
    have hmissed : ((cachedUsers [usersRoute, userRoute]).clearPatterns
        CaseMapping.latin1 user (scopeOf (some "k3d9".toList)) false).map
          (fun issued => issued.any (fun r => r.test "/api/users/7?&&".toList)) =
            Except.ok false := by
      decide
    have hfound : ((cachedUsers [usersRoute, userRoute]).patternsFor
        CaseMapping.latin1 user ∅ true).map
          (fun regExps => regExps.any (fun r => r.test "/api/users/7?&&".toList)) =
            Except.ok true := by
      decide
    rw [hclear, Except.map, Except.ok.injEq] at hmissed
    rw [show userRemoved.event.uid = user from rfl] at hregExps
    rw [hregExps, Except.map, Except.ok.injEq] at hfound
    rcases List.any_eq_true.mp hfound with ⟨r, hr, htest⟩
    rw [List.any_eq_false] at hmissed
    exact absurd htest (hmissed r (hsub hr))
  · constructor
    · intro w hw
      rw [List.mem_singleton.mp hw]
    · intro scope hscope
      rw [List.mem_singleton.mp hscope]
      decide

end Example

end Invalidation
end RestCache
