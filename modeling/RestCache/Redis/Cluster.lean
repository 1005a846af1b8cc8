import Mathlib.Data.Finset.Basic
import Mathlib.Data.Finset.Image
import Mathlib.Data.Finset.SDiff
import Mathlib.Logic.Function.Basic
import RestCache.Foundation.Transition
import RestCache.Foundation.UriComponent

/-!
# The redis provider on a cluster

On a cluster `@keyv/redis` cannot write an entry and its tracking-set member in
one MULTI, so `makeClusterSafe`, `delMany` and the prune pass issue their redis
commands one by one.  A redis command is atomic; everything between two
commands of one client may be interleaved with commands of the others.
`useRedisSets` is left on throughout.
-/

namespace RestCache
namespace Redis

abbrev Name := Foundation.JsString

/--
What the commands of this provider can observe: which entries exist, and the
members of the tracking set.
-/
structure Db where
  entries : Finset Name
  tracked : Finset Name

namespace Db

def empty : Db :=
  { entries := ∅, tracked := ∅ }

def set (db : Db) (name : Name) : Db :=
  { db with entries := insert name db.entries }

def unlink (db : Db) (name : Name) : Db :=
  { db with entries := db.entries.erase name }

def sadd (db : Db) (members : List Name) : Db :=
  { db with tracked := db.tracked ∪ members.toFinset }

def srem (db : Db) (members : List Name) : Db :=
  { db with tracked := db.tracked \ members.toFinset }

def exist (db : Db) (name : Name) : Bool :=
  decide (name ∈ db.entries)

end Db

/-- A cache key as `@keyv/redis` names it in redis. -/
def qualified (ns key : Name) : Name :=
  ns ++ ':' :: key

/-- The members SREMed per command by `delMany`. -/
def SREM_CHUNK : Nat := 1000

def CONCURRENCY : Nat := 16

/-!
## Client operations

A task is the rest of one operation: the commands it has yet to send and what
it remembers of the replies.  `last` is the flag that the SSCAN cursor came
back as 0, so that the pass ends with this batch.
-/

inductive Task where
  | idle
  | setting (name : Name)
  | tracking (name : Name)
  | untracking (name : Name)
  | unlinking (name : Name)
  | untrackingMany (untracked pending : List Name)
  | unlinkingMany (batch rest : List Name)
  | scanning
  | checking (waiting dead : List Name) (last : Bool)
  | untrackingDead (dead : List Name) (last : Bool)
  | rechecking (waiting rewritten : List Name) (last : Bool)
  | retracking (rewritten : List Name) (last : Bool)
deriving DecidableEq

def afterBatch (last : Bool) : Task :=
  if last then Task.idle else Task.scanning

/-- `untrackDead` once the first round of EXISTS has been answered. -/
def afterCheck (dead : List Name) (last : Bool) : Task :=
  if dead.isEmpty then afterBatch last else Task.untrackingDead dead last

def afterRecheck (rewritten : List Name) (last : Bool) : Task :=
  if rewritten.isEmpty then afterBatch last else Task.retracking rewritten last

def nextUnlinks (rest : List Name) : Task :=
  if rest.isEmpty then
    Task.idle
  else
    Task.unlinkingMany (rest.take CONCURRENCY) (rest.drop CONCURRENCY)

/-- The next chunked SREM of `delMany`, or its UNLINKs when none is left. -/
def nextSrem (untracked pending : List Name) : Task :=
  if pending.isEmpty then
    nextUnlinks untracked
  else
    Task.untrackingMany untracked pending

abbrev Client := Nat

structure State where
  db : Db
  task : Client -> Task

namespace State

def init : State :=
  { db := Db.empty, task := fun _ => Task.idle }

def command (s : State) (c : Client) (db : Db) (task : Task) : State :=
  { db := db, task := Function.update s.task c task }

end State

/--
An event is a call to the provider, one redis command of an operation in
progress, or an entry reaching the end of its PX lifetime.  `exec` is the next
command of an operation that has only one outstanding; the concurrent EXISTS
and UNLINK commands name the key they are about.
-/
inductive Event where
  | set (c : Client) (key : Name)
  | del (c : Client) (key : Name)
  | delMany (c : Client) (keys : List Name)
  | prune (c : Client)
  | exec (c : Client)
  | execUnlink (c : Client) (name : Name)
  | execExists (c : Client) (name : Name)
  | execSscan (c : Client) (batch : List Name) (last : Bool)
  | expire (name : Name)

def call (s : State) (c : Client) (task : Task) : Option State :=
  match s.task c with
  | Task.idle => some (s.command c s.db task)
  | _ => none

def exec (s : State) (c : Client) : Option State :=
  match s.task c with
  | Task.setting name => some (s.command c (s.db.set name) (Task.tracking name))
  | Task.tracking name => some (s.command c (s.db.sadd [name]) Task.idle)
  | Task.untracking name =>
      some (s.command c (s.db.srem [name]) (Task.unlinking name))
  | Task.unlinking name => some (s.command c (s.db.unlink name) Task.idle)
  | Task.untrackingMany untracked pending =>
      let chunk := pending.take SREM_CHUNK
      some (s.command c (s.db.srem chunk)
        (nextSrem (untracked ++ chunk) (pending.drop SREM_CHUNK)))
  | Task.untrackingDead dead last =>
      some (s.command c (s.db.srem dead) (Task.rechecking dead [] last))
  | Task.retracking rewritten last =>
      some (s.command c (s.db.sadd rewritten) (afterBatch last))
  | _ => none

def execUnlink (s : State) (c : Client) (name : Name) : Option State :=
  match s.task c with
  | Task.unlinkingMany batch rest =>
      if name ∈ batch then
        let left := batch.erase name
        some (s.command c (s.db.unlink name)
          (if left.isEmpty then nextUnlinks rest
            else Task.unlinkingMany left rest))
      else
        none
  | _ => none

def execExists (s : State) (c : Client) (name : Name) : Option State :=
  match s.task c with
  | Task.checking waiting dead last =>
      if name ∈ waiting then
        let left := waiting.erase name
        let dead := if s.db.exist name then dead else dead ++ [name]
        some (s.command c s.db
          (if left.isEmpty then afterCheck dead last
            else Task.checking left dead last))
      else
        none
  | Task.rechecking waiting rewritten last =>
      if name ∈ waiting then
        let left := waiting.erase name
        let rewritten :=
          if s.db.exist name then rewritten ++ [name] else rewritten
        some (s.command c s.db
          (if left.isEmpty then afterRecheck rewritten last
            else Task.rechecking left rewritten last))
      else
        none
  | _ => none

/-- One SSCAN reply.  Nothing is assumed about the batch it carries. -/
def execSscan (s : State) (c : Client) (batch : List Name) (last : Bool) :
    Option State :=
  match s.task c with
  | Task.scanning =>
      some (s.command c s.db
        (if batch.isEmpty then afterBatch last
          else Task.checking batch [] last))
  | _ => none

def step (ns : Name) (s : State) : Event -> Option State
  | Event.set c key => call s c (Task.setting (qualified ns key))
  | Event.del c key => call s c (Task.untracking (qualified ns key))
  | Event.delMany c keys =>
      call s c (nextSrem [] (keys.map (qualified ns)))
  | Event.prune c => call s c Task.scanning
  | Event.exec c => exec s c
  | Event.execUnlink c name => execUnlink s c name
  | Event.execExists c name => execExists s c name
  | Event.execSscan c batch last => execSscan s c batch last
  | Event.expire name => some { s with db := s.db.unlink name }

/-!
## Listing keys

`keys()` reads the tracking set and strips the namespace again, so what it
cannot see is exactly what the set has lost.
-/

def unqualified (ns member : Name) : Name :=
  if (ns ++ [':']).isPrefixOf member then
    member.drop (ns ++ [':']).length
  else
    member

def keys (ns : Name) (s : State) : Finset Name :=
  s.db.tracked.image (unqualified ns)

theorem unqualified_qualified (ns key : Name) :
    unqualified ns (qualified ns key) = key := by
  have hsplit : qualified ns key = (ns ++ [':']) ++ key := by
    simp [qualified]
  have hprefix : (ns ++ [':']).isPrefixOf (qualified ns key) = true := by
    rw [hsplit]
    simp
  unfold unqualified
  rw [if_pos hprefix, hsplit, List.drop_left]

end Redis
end RestCache
