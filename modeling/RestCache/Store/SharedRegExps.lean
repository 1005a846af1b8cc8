import RestCache.Foundation.BoundedLog
import RestCache.Foundation.RegExpObject
import RestCache.Store.PrefixIsolation

/-!
# Purges by shared regular expressions

The purge log keeps the very objects that the caller handed in, and their
`lastIndex` is carried from the keys of a purge to the questions asked
afterwards.
-/

namespace RestCache
namespace Store

open Foundation

namespace SharedRegExps

/-- A recorded purge: the expressions by reference; `none` stands for a reset. -/
abbrev Recorded (ι : Type) := Option (List ι)

structure State (ι σ : Type) where
  log : BoundedLog.Log (Recorded ι)
  lastIndex : LastIndex ι
  held : σ

section Operations

variable {ι σ : Type} [DecidableEq ι] (object : ι -> RegExp)

/-- An entry's number is the generation that its purge started. -/
def recordPurge (regExps : Recorded ι) (s : State ι σ) : State ι σ :=
  { s with log := BoundedLog.push PURGE_LOG_SIZE regExps s.log }

def scanBack (since : Nat) (key : JsString) :
    List (BoundedLog.Numbered (Recorded ι)) -> LastIndex ι ->
      Bool × LastIndex ι
  | [], indices => (false, indices)
  | entry :: older, indices =>
      if entry.number > since then
        match entry.item with
        | none => (true, indices)
        | some regExps =>
            let z := someMatches object regExps key indices
            if z.1 then (true, z.2) else scanBack since key older z.2
      else
        (false, indices)

def purgedSince (since : Nat) (key : JsString) (s : State ι σ) :
    Bool × State ι σ :=
  if since = s.log.count then
    (false, s)
  else
    match s.log.kept with
    | [] => (true, s)
    | first :: _ =>
        if first.number > since + 1 then
          (true, s)
        else
          let z := scanBack object since key s.log.kept.reverse s.lastIndex
          (z.1, { s with lastIndex := z.2 })

def onHeld {α : Type} (op : Store.State σ -> Settled α × Store.State σ)
    (s : State ι σ) : Settled α × State ι σ :=
  let z := op { log := PurgeLog.init, held := s.held }
  (z.1, { s with held := z.2.held })

variable (self : CacheStore) (provider : CacheProvider σ)

def clearByRegexp (regExps : List ι) (s : State ι σ) :
    Settled (Option Unit) × State ι σ :=
  match onHeld (self.keys provider) (recordPurge (some regExps) s) with
  | (Except.error e, s) => (Except.error e, s)
  | (Except.ok listed, s) =>
      let z := filterMatches object regExps (listed.getD []) s.lastIndex
      onHeld (self.delMany provider z.1) { s with lastIndex := z.2 }

def reset (s : State ι σ) : Settled (Option Unit) × State ι σ :=
  if self.unusable provider { log := PurgeLog.init, held := s.held } then
    (Except.ok none, s)
  else
    onHeld (self.reset provider) (recordPurge none s)

def purgedSinceAll (since : Nat) :
    List JsString -> State ι σ -> List Bool × State ι σ
  | [], s => ([], s)
  | key :: rest, s =>
      let z := purgedSince object since key s
      let y := purgedSinceAll since rest z.2
      (z.1 :: y.1, y.2)

end Operations

/-!
## Runs of calls
-/

/-- A call, or what happens to the entries and the expressions outside the store. -/
inductive Call (ι σ : Type) where
  | clearByRegexp (regExps : List ι)
  | reset
  | purgedSince (since : Nat) (key : JsString)
  | outside (held : σ) (lastIndex : LastIndex ι)

def State.generation {ι σ : Type} (s : State ι σ) : Nat :=
  s.log.count

def created {ι σ : Type} (held : σ) (lastIndex : LastIndex ι) : State ι σ where
  log := BoundedLog.empty
  lastIndex := lastIndex
  held := held

section Runs

variable {ι σ : Type} [DecidableEq ι] (object : ι -> RegExp)
  (self : CacheStore) (provider : CacheProvider σ)

def run : Call ι σ -> State ι σ -> State ι σ
  | Call.clearByRegexp regExps, s =>
      (clearByRegexp object self provider regExps s).2
  | Call.reset, s => (reset self provider s).2
  | Call.purgedSince since key, s => (purgedSince object since key s).2
  | Call.outside held lastIndex, s => { s with held, lastIndex }

def runAll : List (Call ι σ) -> State ι σ -> State ι σ
  | [], s => s
  | call :: rest, s => runAll rest (run object self provider call s)

/-- The purge that a call is; a reset of a store that is not to be used is none. -/
def purgeOf : Call ι σ -> State ι σ -> List (Recorded ι)
  | Call.clearByRegexp regExps, _ => [some regExps]
  | Call.reset, s =>
      if self.unusable provider { log := PurgeLog.init, held := s.held } then []
      else [none]
  | Call.purgedSince _ _, _ => []
  | Call.outside _ _, _ => []

def purgesOf : List (Call ι σ) -> State ι σ -> List (Recorded ι)
  | [], _ => []
  | call :: rest, s =>
      purgeOf self provider call s ++
        purgesOf rest (run object self provider call s)

end Runs

/-!
## What is recorded
-/

section Records

variable {ι σ : Type} [DecidableEq ι] {object : ι -> RegExp}
  {self : CacheStore} {provider : CacheProvider σ}

theorem clearByRegexp_log (regExps : List ι) (s : State ι σ) :
    (clearByRegexp object self provider regExps s).2.log =
      BoundedLog.push PURGE_LOG_SIZE (some regExps) s.log := by
  unfold clearByRegexp
  split
  · rename_i e s' hkeys
    exact congrArg (fun z => z.2.log) hkeys.symm
  · rename_i listed s' hkeys
    exact congrArg (fun z => z.2.log) hkeys.symm

omit [DecidableEq ι] in
theorem reset_log (s : State ι σ) :
    (reset self provider s).2.log =
      if self.unusable provider { log := PurgeLog.init, held := s.held } then
        s.log
      else BoundedLog.push PURGE_LOG_SIZE none s.log := by
  unfold reset
  split
  · rfl
  · rfl

theorem purgedSince_log (since : Nat) (key : JsString) (s : State ι σ) :
    (purgedSince object since key s).2.log = s.log := by
  unfold purgedSince
  split
  · rfl
  · split
    · rfl
    · split <;> rfl

theorem run_log (call : Call ι σ) (s : State ι σ) :
    (run object self provider call s).log =
      BoundedLog.pushAll PURGE_LOG_SIZE (purgeOf self provider call s) s.log := by
  cases call with
  | clearByRegexp regExps => exact clearByRegexp_log regExps s
  | reset =>
      show (reset self provider s).2.log = _
      rw [reset_log, purgeOf]
      split <;> rfl
  | purgedSince since key => exact purgedSince_log since key s
  | outside held lastIndex => rfl

/-- After every run the log is the newest part of all purges. -/
theorem keeps_runAll {recorded : List (Recorded ι)} {s : State ι σ}
    (h : BoundedLog.Keeps PURGE_LOG_SIZE s.log recorded)
    (calls : List (Call ι σ)) :
    BoundedLog.Keeps PURGE_LOG_SIZE (runAll object self provider calls s).log
      (recorded ++ purgesOf object self provider calls s) := by
  induction calls generalizing recorded s with
  | nil =>
      rw [purgesOf, List.append_nil]
      exact h
  | cons call rest ih =>
      have hnext := BoundedLog.keeps_pushAll h (purgeOf self provider call s)
      rw [← @run_log ι σ _ object self provider call s] at hnext
      have hrest := ih hnext
      rw [List.append_assoc] at hrest
      exact hrest

theorem keeps_created (held : σ) (lastIndex : LastIndex ι)
    (calls : List (Call ι σ)) :
    BoundedLog.Keeps PURGE_LOG_SIZE
      (runAll object self provider calls (created held lastIndex)).log
        (purgesOf object self provider calls (created held lastIndex)) := by
  have hempty := @BoundedLog.keeps_empty (Recorded ι) PURGE_LOG_SIZE
  exact @keeps_runAll ι σ _ object self provider [] (created held lastIndex)
    hempty calls

theorem mem_purgesOf {regExps : List ι} {calls : List (Call ι σ)}
    {s : State ι σ}
    (h : some regExps ∈ purgesOf object self provider calls s) :
    Call.clearByRegexp regExps ∈ calls := by
  induction calls generalizing s with
  | nil => exact absurd h List.not_mem_nil
  | cons call rest ih =>
      rw [purgesOf, List.mem_append] at h
      rcases h with hfirst | hrest
      · have hcall : call = Call.clearByRegexp regExps := by
          cases call with
          | clearByRegexp others =>
              have hsame : some regExps = some others := List.mem_singleton.mp hfirst
              rw [Option.some.inj hsame]
          | reset =>
              rw [purgeOf] at hfirst
              split at hfirst
              · exact absurd hfirst List.not_mem_nil
              · exact absurd (List.mem_singleton.mp hfirst) (by simp)
          | purgedSince since key => exact absurd hfirst List.not_mem_nil
          | outside held lastIndex => exact absurd hfirst List.not_mem_nil
        rw [hcall]
        exact List.mem_cons_self
      · exact List.mem_cons_of_mem call (ih hrest)

/-!
## purgedSince
-/

def scanItems (object : ι -> RegExp) (key : JsString) :
    List (Recorded ι) -> LastIndex ι -> Bool × LastIndex ι
  | [], indices => (false, indices)
  | none :: _, indices => (true, indices)
  | some regExps :: older, indices =>
      let z := someMatches object regExps key indices
      if z.1 then (true, z.2) else scanItems object key older z.2

theorem scanBack_eq (since : Nat) (key : JsString)
    (entries : List (BoundedLog.Numbered (Recorded ι))) (indices : LastIndex ι) :
    scanBack object since key entries.reverse indices =
      scanItems object key
        ((BoundedLog.newer since entries).map BoundedLog.Numbered.item)
          indices := by
  unfold BoundedLog.newer
  induction entries.reverse generalizing indices with
  | nil => rfl
  | cons entry older ih =>
      rw [scanBack]
      split
      · rename_i hnewer
        have hkeep : decide (since < entry.number) = true :=
          decide_eq_true hnewer
        rw [@List.takeWhile_cons_of_pos _ _ entry _ hkeep, List.map_cons]
        cases entry.item with
        | none => rfl
        | some regExps =>
            show (if (someMatches object regExps key indices).1 = true then _
              else scanBack object since key older _) = _
            rw [ih]
            rfl
      · rename_i hold
        have hstop : ¬ decide (since < entry.number) = true := by
          rw [decide_eq_true_iff]
          exact hold
        rw [@List.takeWhile_cons_of_neg _ _ entry _ hstop]
        rfl

theorem purgedSince_cases {before after : List (Recorded ι)} (key : JsString)
    {s : State ι σ}
    (hkeeps : BoundedLog.Keeps PURGE_LOG_SIZE s.log (before ++ after)) :
    (after = [] ∧ purgedSince object before.length key s = (false, s)) ∨
    (PURGE_LOG_SIZE < after.length ∧
      purgedSince object before.length key s = (true, s)) ∨
    (after.length <= PURGE_LOG_SIZE ∧
      purgedSince object before.length key s =
        ((scanItems object key after.reverse s.lastIndex).1,
          { s with
            lastIndex := (scanItems object key after.reverse s.lastIndex).2 })) := by
  have hlength : before.length <= (before ++ after).length := by
    rw [List.length_append]
    exact Nat.le_add_right _ _
  have hcases := hkeeps.since_cases (show 0 < PURGE_LOG_SIZE by decide) hlength
  have hroom : (before ++ after).length - before.length = after.length := by
    rw [List.length_append, Nat.add_sub_cancel_left]
  rw [List.drop_left, hroom] at hcases
  unfold purgedSince
  rcases hcases with ⟨hnow, hnothing⟩ | ⟨hpast, first, rest, hkept, hcases⟩
  · rw [if_pos hnow]
    exact Or.inl ⟨hnothing, rfl⟩
  · rw [if_neg hpast, hkept]
    simp only
    rcases hcases with ⟨hdropped, hmany⟩ | ⟨hreach, hfew, hnewer⟩
    · rw [if_pos hdropped]
      exact Or.inr (Or.inl ⟨hmany, rfl⟩)
    · rw [if_neg hreach, ← hkept, scanBack_eq, hnewer]
      exact Or.inr (Or.inr ⟨hfew, rfl⟩)

/-- The purge may have removed the key: a reset, or a pattern matches it. -/
def Covers (object : ι -> RegExp) (key : JsString) (purge : Recorded ι) : Prop :=
  purge = none ∨
    exists regExps, purge = some regExps ∧
      anyFromStart object regExps key = true

theorem scanItems_stateless {purges : List (Recorded ι)}
    (h : forall regExps, some regExps ∈ purges -> Stateless object regExps)
    (key : JsString) (indices : LastIndex ι) :
    (scanItems object key purges indices).2 = indices ∧
      ((scanItems object key purges indices).1 = true <->
        exists purge, purge ∈ purges ∧ Covers object key purge) := by
  induction purges with
  | nil => simp [scanItems]
  | cons purge rest ih =>
      have hrest := ih (fun regExps hmem => h regExps (List.mem_cons_of_mem _ hmem))
      cases purge with
      | none =>
          apply And.intro rfl
          exact iff_of_true rfl ⟨none, List.mem_cons_self, Or.inl rfl⟩
      | some regExps =>
          have htest := someMatches_stateless
            (h regExps List.mem_cons_self) key indices
          have hcovers : Covers object key (some regExps) <->
              anyFromStart object regExps key = true := by
            simp [Covers]
          rw [scanItems, htest, List.exists_mem_cons_iff, hcovers]
          cases hany : anyFromStart object regExps key with
          | true => exact ⟨rfl, iff_of_true rfl (Or.inl rfl)⟩
          | false =>
              apply And.intro hrest.left
              constructor
              · exact fun hrun => Or.inr (hrest.right.mp hrun)
              · intro hor
                exact hrest.right.mpr (hor.resolve_left Bool.false_ne_true)

/--
In every run of calls since the store was created, a generation read in between
is answered with whether one of the purges behind it covers the key, if these
are at most 1000, and with yes otherwise.
-/
theorem purgedSince_exact {ι σ : Type} [DecidableEq ι] (object : ι -> RegExp)
    (self : CacheStore) (provider : CacheProvider σ) (held : σ)
    (lastIndex : LastIndex ι) (before after : List (Call ι σ)) (key : JsString)
    (hstateless : forall regExps, Call.clearByRegexp regExps ∈ after ->
      Stateless object regExps) :
    let past := runAll object self provider before (created held lastIndex)
    let s := runAll object self provider after past
    let purges := purgesOf object self provider after past
    (purges.length <= 1000 ->
      ((purgedSince object past.generation key s).1 = true <->
        exists purge, purge ∈ purges ∧ Covers object key purge)) ∧
    (1000 < purges.length ->
      (purgedSince object past.generation key s).1 = true) ∧
    s.log.kept.length <= 1000 ∧
    exists forgotten, forgotten + s.log.kept.length = s.generation ∧
      s.log.kept.map BoundedLog.Numbered.number =
        List.range' (forgotten + 1) s.log.kept.length := by
  intro past s purges
  have hpast := @keeps_created ι σ _ object self provider held lastIndex before
  have hkeeps : BoundedLog.Keeps PURGE_LOG_SIZE s.log
      (purgesOf object self provider before (created held lastIndex) ++ purges) :=
    keeps_runAll hpast after
  have hgeneration : past.generation =
      (purgesOf object self provider before (created held lastIndex)).length :=
    hpast.count
  have hscan := @scanItems_stateless ι _ object purges.reverse
    (fun regExps hmem => hstateless regExps
      (mem_purgesOf (List.mem_reverse.mp hmem))) key s.lastIndex
  simp only [List.mem_reverse] at hscan
  rw [hgeneration]
  refine ⟨?_, ?_, hkeeps.length_le, s.log.count - s.log.kept.length, ?_,
    hkeeps.numbers⟩
  · intro hfew
    rcases purgedSince_cases key hkeeps with ⟨hnone, hanswer⟩ |
      ⟨hmany, hanswer⟩ | ⟨_, hanswer⟩
    · rw [hanswer, hnone]
      simp
    · exact absurd hfew (Nat.not_le_of_lt hmany)
    · rw [hanswer]
      exact hscan.right
  · intro hmany
    rcases purgedSince_cases key hkeeps with ⟨hnone, _⟩ | ⟨_, hanswer⟩ |
      ⟨hfew, _⟩
    · rw [hnone] at hmany
      exact absurd hmany (Nat.not_lt_zero _)
    · rw [hanswer]
    · exact absurd hmany (Nat.not_lt_of_le hfew)
  · exact Nat.sub_add_cancel hkeeps.length_le_count

def plainA : RegExp :=
  RegExp.ofPattern false false (Pattern.char (fun c => c = 'a'))

/-- Read the generation after a purge, then reset, then purge what has an `a`. -/
theorem purgedSince_exact_reset :
    (purgedSince (fun _ : Unit => plainA) 1 "b".toList
      (runAll (fun _ : Unit => plainA) (prefixed []) keyspace
        [Call.clearByRegexp [()], Call.reset, Call.clearByRegexp [()]]
          (created ∅ (fun _ => 0)))).1 = true :=
  ((purgedSince_exact (fun _ : Unit => plainA) (prefixed []) keyspace ∅
    (fun _ => 0) [Call.clearByRegexp [()]]
      [Call.reset, Call.clearByRegexp [()]] "b".toList
        (fun _ _ _ _ => rfl)).left (by decide)).mpr
          ⟨none, List.mem_cons_self, Or.inl rfl⟩

end Records

end SharedRegExps

end Store
end RestCache
