import Mathlib.Data.Finset.Lattice.Basic
import Mathlib.Data.List.Chain
import RestCache.Redis.Tracking

/-!
# Who starts a prune pass, and who waits for one

`keys()` and `set()` start a pass in the background, at most once per
interval.  `prune()` waits for the pass in progress, if there is one, and then
for one more.  The bookkeeping is shared by every provider of a store in one
process, so the calls below may come from any of them.  The store is one that
can be pruned, and no command fails.
-/

namespace RestCache
namespace Redis

namespace PruneSchedule

def PRUNE_INTERVAL : Nat := 300000

/-- The bookkeeping of one store; a pass is known by its number. -/
structure PruneState where
  lastStarted : Option Nat
  running : Option Nat

/-- Nothing has been started yet: `lastStarted` is -Infinity. -/
def PruneState.fresh : PruneState :=
  { lastStarted := none, running := none }

inductive Caller where
  | prune
  | keys
  | set
deriving DecidableEq

structure Start where
  time : Nat
  caller : Caller
deriving DecidableEq

/-! Each call remembers the promise it awaits, if it awaits one. -/

inductive PruneCall where
  | notCalled
  | awaitingRunning (promise : Option Nat)
  | awaitingOwn (promise : Option Nat)
  | resolved (promise : Option Nat)
deriving DecidableEq

inductive KeysCall where
  | notCalled
  | listing
  | listed (members : Finset Name)
  | resolved (keys : Finset Name)
deriving DecidableEq

inductive SetCall where
  | notCalled
  | writing
  | resolved
deriving DecidableEq

/-! Passes and writes are clients of redis of their own. -/

def passClient (pass : Nat) : Client :=
  2 * pass

def setClient (k : Nat) : Client :=
  2 * k + 1

/--
One process.  `starts` lists the passes begun, newest first, and `settled`
holds those whose promise has resolved.  The rest is not in the program:
`unseen` is what the SSCAN of a pass has yet to return, `calledAt` the number
of passes begun when a `prune()` was called, and `live` the names that had an
entry, or were written, at any time since.
-/
structure Process where
  redis : State
  now : Nat
  prune : PruneState
  starts : List Start
  settled : Finset Nat
  pruneCall : Nat -> PruneCall
  keysCall : Nat -> KeysCall
  setCall : Nat -> SetCall
  unseen : Nat -> Finset Name
  calledAt : Nat -> Nat
  live : Nat -> Finset Name

namespace Process

def init (db : Db) : Process :=
  { redis := { db := db, task := fun _ => Task.idle }
    now := 0
    prune := PruneState.fresh
    starts := []
    settled := ∅
    pruneCall := fun _ => PruneCall.notCalled
    keysCall := fun _ => KeysCall.notCalled
    setCall := fun _ => SetCall.notCalled
    unseen := fun _ => ∅
    calledAt := fun _ => 0
    live := fun _ => ∅ }

def executed (s : Process) (redis : State) (written : Finset Name) : Process :=
  { s with
    redis := redis
    unseen := fun pass => s.unseen pass ∩ redis.db.tracked
    live := fun k => s.live k ∪ redis.db.entries ∪ written }

def returned (s : Process) (pass : Nat) (batch : List Name) : Process :=
  { s with
    unseen := Function.update s.unseen pass
      (s.unseen pass \ batch.toFinset) }

def setPrune (s : Process) (k : Nat) (call : PruneCall) : Process :=
  { s with pruneCall := Function.update s.pruneCall k call }

def setKeys (s : Process) (k : Nat) (call : KeysCall) : Process :=
  { s with keysCall := Function.update s.keysCall k call }

def setSet (s : Process) (k : Nat) (call : SetCall) : Process :=
  { s with setCall := Function.update s.setCall k call }

def Settled (s : Process) : Option Nat -> Prop
  | none => True
  | some pass => pass ∈ s.settled

instance (s : Process) (promise : Option Nat) :
    Decidable (s.Settled promise) := by
  cases promise <;> unfold Settled <;> infer_instance

def begin (s : Process) (caller : Caller) (now : Nat) : Process :=
  { s with
    redis := s.redis.command (passClient s.starts.length) s.redis.db
      Task.scanning
    now := now
    prune :=
      { lastStarted := some now
        running := some s.starts.length }
    starts := Start.mk now caller :: s.starts
    unseen := Function.update s.unseen s.starts.length s.redis.db.tracked }

end Process

def tooSoon (now : Nat) (lastStarted : Option Nat) (interval : Nat) : Bool :=
  match lastStarted with
  | none => false
  | some last => decide ((now : Int) - (last : Int) < (interval : Int))

/-- `drift` is how far the clock moves between the two readings of it. -/
def startPrune (s : Process) (caller : Caller) (interval drift : Nat) :
    Process × Option Nat :=
  match s.prune.running with
  | some pass => (s, some pass)
  | none =>
      if tooSoon s.now s.prune.lastStarted interval then
        (s, none)
      else
        (s.begin caller (s.now + drift), some s.starts.length)

/--
The calls, numbered per method, and the moments at which they go on; the
commands of a pass and of a write; the `finally` of a pass; expiry and time.
-/
inductive Event where
  | prune (k : Nat)
  | pruneResumes (k drift : Nat)
  | pruneResolves (k : Nat)
  | keys (k : Nat)
  | smembers (k : Nat)
  | keysResolves (k drift : Nat)
  | set (k : Nat) (key : Name)
  | write (k : Nat)
  | setResolves (k drift : Nat)
  | sscan (pass : Nat) (batch : List Name) (last : Bool)
  | exists (pass : Nat) (name : Name)
  | exec (pass : Nat)
  | passSettles (pass : Nat)
  | expire (name : Name)
  | tick (elapsed : Nat)

def command (ns : Name) (s : Process) (e : Redis.Event) : Option Process :=
  (Redis.step ns s.redis e).map fun redis =>
    s.executed redis (saddOf s.redis e)

def step (ns : Name) (s : Process) : Event -> Option Process
  | Event.prune k =>
      match s.pruneCall k with
      | PruneCall.notCalled =>
          some { s with
            pruneCall := Function.update s.pruneCall k
              (PruneCall.awaitingRunning s.prune.running)
            calledAt := Function.update s.calledAt k s.starts.length
            live := Function.update s.live k s.redis.db.entries }
      | _ => none
  | Event.pruneResumes k drift =>
      match s.pruneCall k with
      | PruneCall.awaitingRunning promise =>
          if s.Settled promise then
            let (t, own) := startPrune s Caller.prune 0 drift
            some (t.setPrune k (PruneCall.awaitingOwn own))
          else
            none
      | _ => none
  | Event.pruneResolves k =>
      match s.pruneCall k with
      | PruneCall.awaitingOwn promise =>
          if s.Settled promise then
            some (s.setPrune k (PruneCall.resolved promise))
          else
            none
      | _ => none
  | Event.keys k =>
      match s.keysCall k with
      | KeysCall.notCalled => some (s.setKeys k KeysCall.listing)
      | _ => none
  | Event.smembers k =>
      match s.keysCall k with
      | KeysCall.listing =>
          some (s.setKeys k (KeysCall.listed s.redis.db.tracked))
      | _ => none
  | Event.keysResolves k drift =>
      match s.keysCall k with
      | KeysCall.listed members =>
          -- The pass is started, not awaited.
          let (t, _) := startPrune s Caller.keys PRUNE_INTERVAL drift
          some (t.setKeys k
            (KeysCall.resolved (members.image (unqualified ns))))
      | _ => none
  | Event.set k key =>
      match s.setCall k with
      | SetCall.notCalled =>
          (command ns s (Redis.Event.set (setClient k) key)).map fun t =>
            t.setSet k SetCall.writing
      | _ => none
  | Event.write k =>
      match s.setCall k with
      | SetCall.writing => command ns s (Redis.Event.exec (setClient k))
      | _ => none
  | Event.setResolves k drift =>
      match s.setCall k with
      | SetCall.writing =>
          if s.redis.task (setClient k) = Task.idle then
            let (t, _) := startPrune s Caller.set PRUNE_INTERVAL drift
            some (t.setSet k SetCall.resolved)
          else
            none
      | _ => none
  | Event.sscan pass batch last =>
      (command ns s
        (Redis.Event.execSscan (passClient pass) batch last)).map fun t =>
          t.returned pass batch
  | Event.exists pass name =>
      command ns s (Redis.Event.execExists (passClient pass) name)
  | Event.exec pass => command ns s (Redis.Event.exec (passClient pass))
  | Event.passSettles pass =>
      if pass < s.starts.length ∧ pass ∉ s.settled ∧
          s.redis.task (passClient pass) = Task.idle then
        some { s with
          prune := { s.prune with running := none }
          settled := insert pass s.settled }
      else
        none
  | Event.expire name => command ns s (Redis.Event.expire name)
  | Event.tick elapsed => some { s with now := s.now + elapsed }

/--
The guarantee of SSCAN: when the cursor comes back as 0, every member that was
there all along has been returned.
-/
def ScansAll (s : Process) : Event -> Prop
  | Event.sscan pass batch true => s.unseen pass ⊆ batch.toFinset
  | _ => True

end PruneSchedule

end Redis
end RestCache
