import RestCache.Foundation.BoundedLog
import RestCache.Foundation.RegExp

/-!
# The purge log

Every purge is numbered and kept with its patterns before it lists the keys, so
that a request can ask whether a purge that covers its key was recorded after
it read the generation.  The log is bounded; a question it can no longer answer
is answered with yes.
-/

namespace RestCache
namespace Store

open Foundation

def PURGE_LOG_SIZE : Nat := 1000

/-- The patterns of a purge; `none` stands for a reset. -/
abbrev RegExps := Option (List Pattern)

structure LogEntry where
  generation : Nat
  regExps : RegExps

structure PurgeLog where
  generation : Nat
  entries : List LogEntry

def PurgeLog.init : PurgeLog where
  generation := 0
  entries := []

def recordPurge (regExps : RegExps) (log : PurgeLog) : PurgeLog :=
  let generation := log.generation + 1
  let entries := log.entries ++ [LogEntry.mk generation regExps]
  { generation
    entries :=
      if entries.length > PURGE_LOG_SIZE then entries.tail else entries }

def covers (key : JsString) (regExps : RegExps) : Bool :=
  match regExps with
  | none => true
  | some patterns => patterns.any (fun p => p.test key)

/-- The loop of `purgedSince`, from the newest entry back. -/
def scanBack (since : Nat) (key : JsString) : List LogEntry -> Bool
  | [] => false
  | entry :: older =>
      if entry.generation > since then
        covers key entry.regExps || scanBack since key older
      else
        false

def purgedSince (log : PurgeLog) (since : Nat) (key : JsString) : Bool :=
  if since = log.generation then
    false
  else
    match log.entries with
    | [] => true
    | first :: _ =>
        if first.generation > since + 1 then
          true
        else
          scanBack since key log.entries.reverse

/-!
## The log and the whole history

The log holds the newest purges of the history under consecutive numbers.
-/

def numberFrom : Nat -> List RegExps -> List LogEntry
  | _, [] => []
  | n, r :: rest => LogEntry.mk (n + 1) r :: numberFrom (n + 1) rest

structure Keeps (log : PurgeLog) (recorded : List RegExps) : Prop where
  generation : log.generation = recorded.length
  entries : log.entries =
    numberFrom (recorded.length - PURGE_LOG_SIZE)
      (recorded.drop (recorded.length - PURGE_LOG_SIZE))

def LogEntry.numbered (entry : LogEntry) : BoundedLog.Numbered RegExps where
  number := entry.generation
  item := entry.regExps

def PurgeLog.numbered (log : PurgeLog) : BoundedLog.Log RegExps where
  count := log.generation
  kept := log.entries.map LogEntry.numbered

theorem numbered_injective : Function.Injective LogEntry.numbered := by
  intro e f h
  cases e with
  | mk generation regExps =>
      cases f with
      | mk generation' regExps' =>
          rcases BoundedLog.Numbered.mk.inj h with ⟨hnumber, hitem⟩
          rw [show generation = generation' from hnumber,
            show regExps = regExps' from hitem]

theorem numbered_numberFrom (n : Nat) (rs : List RegExps) :
    (numberFrom n rs).map LogEntry.numbered = BoundedLog.numberFrom n rs := by
  induction rs generalizing n with
  | nil => rfl
  | cons r rest ih =>
      rw [numberFrom, List.map_cons, ih]
      rfl

theorem numbered_recordPurge (r : RegExps) (log : PurgeLog) :
    (recordPurge r log).numbered =
      BoundedLog.push PURGE_LOG_SIZE r log.numbered := by
  have hentries : (log.entries ++ [LogEntry.mk (log.generation + 1) r]).map
      LogEntry.numbered = log.numbered.kept ++
        [BoundedLog.Numbered.mk (log.numbered.count + 1) r] := by
    rw [List.map_append]
    rfl
  have hlength := congrArg List.length hentries
  rw [List.length_map] at hlength
  unfold BoundedLog.push
  simp only [← hlength]
  unfold recordPurge PurgeLog.numbered
  rw [BoundedLog.Log.mk.injEq]
  apply And.intro rfl
  simp only
  split
  · rw [List.map_tail, hentries]
    rfl
  · exact hentries

theorem keeps_iff (log : PurgeLog) (recorded : List RegExps) :
    Keeps log recorded <->
      BoundedLog.Keeps PURGE_LOG_SIZE log.numbered recorded := by
  constructor
  · intro h
    constructor
    · exact h.generation
    · show log.entries.map LogEntry.numbered = _
      rw [h.entries, numbered_numberFrom]
  · intro h
    constructor
    · exact h.count
    · apply (List.map_injective_iff.mpr numbered_injective)
      rw [numbered_numberFrom]
      exact h.kept

theorem keeps_init : Keeps PurgeLog.init [] :=
  (keeps_iff _ _).mpr (BoundedLog.keeps_empty PURGE_LOG_SIZE)

theorem keeps_recordPurge {log : PurgeLog} {recorded : List RegExps}
    (h : Keeps log recorded) (r : RegExps) :
    Keeps (recordPurge r log) (recorded ++ [r]) := by
  rw [keeps_iff, numbered_recordPurge]
  exact BoundedLog.keeps_push ((keeps_iff _ _).mp h) r

/-- A log together with every purge recorded so far. -/
structure Journal where
  log : PurgeLog
  recorded : List RegExps
  keeps : Keeps log recorded

namespace Journal

def init : Journal where
  log := PurgeLog.init
  recorded := []
  keeps := keeps_init

def record (r : RegExps) (journal : Journal) : Journal where
  log := recordPurge r journal.log
  recorded := journal.recorded ++ [r]
  keeps := keeps_recordPurge journal.keeps r

end Journal

/-- A purge that covers the key was recorded after the first `since`. -/
def Purged (recorded : List RegExps) (since : Nat) (key : JsString) : Prop :=
  exists r, r ∈ recorded.drop since ∧ covers key r = true

/-!
## purgedSince
-/

theorem scanBack_eq (since : Nat) (key : JsString) (entries : List LogEntry) :
    scanBack since key entries.reverse =
      ((BoundedLog.newer since (entries.map LogEntry.numbered)).map
        BoundedLog.Numbered.item).any (covers key) := by
  unfold BoundedLog.newer
  rw [← List.map_reverse]
  induction entries.reverse with
  | nil => rfl
  | cons entry older ih =>
      rw [scanBack, List.map_cons]
      split
      · rename_i hnewer
        have hkeep : decide (since < entry.numbered.number) = true :=
          decide_eq_true hnewer
        rw [@List.takeWhile_cons_of_pos _ _ entry.numbered _ hkeep,
          List.map_cons, List.any_cons, ih]
        rfl
      · rename_i hold
        have hstop : ¬ decide (since < entry.numbered.number) = true := by
          rw [decide_eq_true_iff]
          exact hold
        rw [@List.takeWhile_cons_of_neg _ _ entry.numbered _ hstop]
        rfl

/-- The answer is exact as long as the log reaches back far enough. -/
theorem purgedSince_iff {log : PurgeLog} {recorded : List RegExps}
    (h : Keeps log recorded) {since : Nat} (hsince : since ≤ recorded.length)
    (key : JsString) :
    purgedSince log since key = true <->
      PURGE_LOG_SIZE < recorded.length - since ∨
        Purged recorded since key := by
  have hany : Purged recorded since key <->
      (recorded.drop since).any (covers key) = true := by
    rw [List.any_eq_true]
    rfl
  have hcases := ((keeps_iff _ _).mp h).since_cases (by decide) hsince
  rw [hany]
  unfold purgedSince
  rcases hcases with ⟨hnow, hnothing⟩ | ⟨hpast, first, rest, hkept, hcases⟩
  · rw [if_pos (show since = log.generation from hnow), hnothing]
    have hlength := congrArg List.length hnothing
    rw [List.length_drop, List.length_nil] at hlength
    rw [hlength]
    simp
  · rw [if_neg (show ¬ since = log.generation from hpast)]
    cases hentries : log.entries with
    | nil =>
        have hnil : log.numbered.kept = [] := by
          rw [PurgeLog.numbered, hentries]
          rfl
        rw [hnil] at hkept
        exact absurd hkept (by simp)
    | cons entry more =>
        have hfirst : entry.generation = first.number := by
          have hhead : entry.numbered :: more.map LogEntry.numbered =
              first :: rest := by
            rw [← hkept, PurgeLog.numbered, hentries, List.map_cons]
          exact congrArg BoundedLog.Numbered.number (List.cons.inj hhead).left
        simp only [hfirst]
        rcases hcases with ⟨hdropped, hmany⟩ | ⟨hreach, hroom, hnewer⟩
        · rw [if_pos hdropped]
          exact iff_of_true rfl (Or.inl hmany)
        · rw [if_neg hreach, ← hentries, scanBack_eq]
          show ((BoundedLog.newer since log.numbered.kept).map
            BoundedLog.Numbered.item).any (covers key) = true <-> _
          rw [hnewer, List.any_reverse]
          constructor
          · exact Or.inr
          · intro hor
            exact hor.resolve_left (Nat.not_lt_of_le hroom)

theorem not_purged_of_purgedSince {journal : Journal} {since : Nat}
    (hsince : since ≤ journal.recorded.length) {key : JsString}
    (h : purgedSince journal.log since key = false) :
    ¬ Purged journal.recorded since key := by
  intro hpurged
  have htrue := (purgedSince_iff journal.keeps hsince key).mpr (Or.inr hpurged)
  rw [h] at htrue
  exact absurd htrue (by decide)

theorem purged_append {recorded : List RegExps} {since : Nat}
    {key : JsString} {r : RegExps} (hsince : since ≤ recorded.length) :
    Purged (recorded ++ [r]) since key <->
      Purged recorded since key ∨ covers key r = true := by
  unfold Purged
  rw [List.drop_append_of_le_length hsince]
  simp only [List.mem_append, List.mem_singleton]
  constructor
  · intro h
    rcases h with ⟨q, hq | rfl, hcovers⟩
    · exact Or.inl ⟨q, hq, hcovers⟩
    · exact Or.inr hcovers
  · intro h
    rcases h with ⟨q, hq, hcovers⟩ | hcovers
    · exact ⟨q, Or.inl hq, hcovers⟩
    · exact ⟨r, Or.inr rfl, hcovers⟩

end Store
end RestCache
