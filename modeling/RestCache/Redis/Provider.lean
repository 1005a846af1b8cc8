import RestCache.Redis.Cluster
import RestCache.Store.ProviderContract

/-!
# The redis provider, one call at a time

Standalone servers and clusters, with and without the tracking set.  Whichever
it is, the calls of the provider are those of a plain map from keys to texts,
and they leave alone what is not under its namespace.  What `@keyv/redis` does
itself on a standalone server is a parameter.
-/

namespace RestCache
namespace Redis

open Foundation
open Foundation.Batches
open Store (Answer CacheProvider Contents Contract Keyspace Surroundings)

/-!
## The server
-/

/-- The entries, and the members of the tracking set in the server's order. -/
structure Server where
  entries : Keyspace
  tracked : List Name

namespace Server

def set (server : Server) (name : Name) (val : JsString) : Server :=
  { server with entries := server.entries.insert name val }

def unlink (server : Server) (name : Name) : Server :=
  { server with entries := server.entries.erase name }

def sadd (server : Server) (member : Name) : Server :=
  { server with tracked :=
      if member ∈ server.tracked then server.tracked
      else server.tracked ++ [member] }

def srem (server : Server) (members : List Name) : Server :=
  { server with tracked := server.tracked.filter (fun name => name ∉ members) }

def exist (server : Server) (name : Name) : Bool :=
  (server.entries.lookup name).isSome

end Server

/-!
## The adapter
-/

def globSpecials : JsString :=
  "*?[\\".toList

/--
The options of `@keyv/redis` that this provider reads.  A namespace with
characters that are special in a glob is left out: SCAN would match by it.
-/
structure Adapter where
  ns : Name
  ns_ne_nil : ns ≠ []
  ns_plain : forall c, c ∈ ns -> c ∉ globSpecials
  isCluster : Bool
  useRedisSets : Bool

namespace Adapter

variable (store : Adapter)

/-- `_getNamespace()`, which names the tracking set. -/
def namespaceName : Name :=
  "namespace:".toList ++ store.ns

/-- What every name begins with when there is no tracking set. -/
def named : Name :=
  "sets:".toList ++ store.namespaceName ++ [':']

def getKeyName (key : JsString) : Name :=
  if store.useRedisSets then qualified store.ns key
  else store.named ++ qualified store.ns key

/-- The beginning that makes a name one of the adapter's. -/
def ownPrefix : Name :=
  if store.useRedisSets then store.ns ++ [':'] else store.named

end Adapter

/--
The calls of `@keyv/redis` on a standalone server, where this provider keeps
them as they are.
-/
structure KeyvRedis where
  set : JsString -> JsString -> Server -> Server
  delete : JsString -> Server -> Server
  clear : Server -> Server

/--
What is relied on there: `set` writes an entry and adds it to the tracking set in
one MULTI, `delete` takes both away in one, and `clear` removes every key and the
tracking set.
-/
structure KeyvRedis.Documented (store : Adapter) (keyv : KeyvRedis) : Prop where
  set : forall key val server name,
    (keyv.set key val server).entries.lookup name =
      if name = store.getKeyName key then some val
      else server.entries.lookup name
  set_tracked : store.useRedisSets = true -> forall key val server name,
    name ∈ (keyv.set key val server).tracked <->
      name ∈ server.tracked ∨ name = store.getKeyName key
  delete : forall key server name,
    (keyv.delete key server).entries.lookup name =
      if name = store.getKeyName key then none
      else server.entries.lookup name
  delete_tracked : store.useRedisSets = true -> forall key server name,
    name ∈ (keyv.delete key server).tracked <->
      name ∈ server.tracked ∧ name ≠ store.getKeyName key
  clear : forall server name,
    (if store.useRedisSets then name ∈ server.tracked
      else store.named <+: name) ->
        (keyv.clear server).entries.lookup name = none
  clear_others : forall server name,
    ¬ (if store.useRedisSets then name ∈ server.tracked
      else store.named <+: name) ->
        (keyv.clear server).entries.lookup name = server.entries.lookup name
  clear_tracked : store.useRedisSets = true -> forall server,
    (keyv.clear server).tracked = []

namespace Adapter

variable (store : Adapter) (keyv : KeyvRedis)

/-- SET, then SADD, with `makeClusterSafe`. -/
def set (key val : JsString) (server : Server) : Server :=
  let name := store.getKeyName key
  if store.isCluster then
    let written := server.set name val
    if store.useRedisSets then written.sadd name else written
  else
    keyv.set key val server

/-- SREM, then UNLINK, with `makeClusterSafe`. -/
def delete (key : JsString) (server : Server) : Server :=
  let name := store.getKeyName key
  if store.isCluster then
    (if store.useRedisSets then server.srem [name] else server).unlink name
  else
    keyv.delete key server

end Adapter

/-!
## The provider
-/

def CHUNK : Nat := 1000

/--
How a server answers a SCAN for the names of the adapter: the batches of a
master, until the cursor is 0 again.
-/
structure Scanner where
  masters : Nat
  scan : Server -> Nat -> List (List Name)

section Calls

variable (store : Adapter) (keyv : KeyvRedis) (scanner : Scanner)

def nodes : List Nat :=
  if store.isCluster then List.range scanner.masters else [0]

/-- SCAN returns every name that is there throughout, from some master. -/
def Scanner.Complete : Prop :=
  forall (server : Server) (name : Name), store.named <+: name ->
    server.exist name = true ->
    exists node, node ∈ nodes store scanner ∧
      name ∈ (scanner.scan server node).flatten

def delManyCluster (names : List Name) (server : Server) : Server :=
  let untracked := (batches SREM_CHUNK names).foldl Server.srem server
  (batches CONCURRENCY names).foldl
    (fun server batch => batch.foldl Server.unlink server) untracked

def delManyStandalone (names : List Name) (server : Server) : Server :=
  (batches CHUNK names).foldl
    (fun server batch => (batch.foldl Server.unlink server).srem batch) server

def delMany (keys : List JsString) (server : Server) : Server :=
  if keys = [] then server
  else if store.useRedisSets then
    if store.isCluster then
      delManyCluster (keys.map (qualified store.ns)) server
    else
      delManyStandalone (keys.map (qualified store.ns)) server
  else
    keys.foldl (fun server key => store.delete keyv key server) server

def listKeys (server : Server) : List JsString :=
  if store.useRedisSets then
    server.tracked.map (unqualified store.ns)
  else
    let found := (nodes store scanner).flatMap
      (fun node => (scanner.scan server node).flatten)
    (found.map (fun name => name.drop store.named.length)).map
      (unqualified store.ns)

def clear (server : Server) : Server :=
  if store.isCluster then
    delMany store keyv (listKeys store scanner server) server
  else
    keyv.clear server

/-- The provider while no command fails. -/
def redisProvider : CacheProvider Server where
  ready _ := true
  get key server :=
    (Answer.value (server.entries.lookup (store.getKeyName key)), server)
  set key val _ server := (Answer.value (), store.set keyv key val server)
  del key server := (Answer.value (), store.delete keyv key server)
  delMany keys server := (Answer.value (), delMany store keyv keys server)
  keys _ server := (Answer.value (listKeys store scanner server), server)
  clear server := (Answer.value (), clear store keyv scanner server)

/-- An entry reaches the end of its lifetime; a prune pass untracks the dead. -/
def redisAround : Surroundings Server where
  expire key server := server.unlink (store.getKeyName key)
  tidy server :=
    { server with tracked := server.tracked.filter server.exist }

end Calls

/-!
## Deleting

The paths of `delMany` and of `delete` differ in their commands and in how they
are grouped, not in what they remove.
-/

section Removal

variable {store : Adapter} {keyv : KeyvRedis} {scanner : Scanner}

/-- The names of these keys are gone, and nothing else has changed. -/
structure Removes (store : Adapter) (keys : List JsString)
    (server after : Server) : Prop where
  entries : forall name, after.entries.lookup name =
    if name ∈ keys.map store.getKeyName then none
    else server.entries.lookup name
  tracked : store.useRedisSets = true -> forall name,
    name ∈ after.tracked <->
      name ∈ server.tracked ∧ name ∉ keys.map store.getKeyName

theorem getKeyName_of_sets (h : store.useRedisSets = true) :
    store.getKeyName = qualified store.ns := by
  funext key
  rw [Adapter.getKeyName, if_pos h]

theorem foldl_unlink (names : List Name) (server : Server) :
    names.foldl Server.unlink server =
      { server with entries := Store.eraseAll names server.entries } := by
  induction names generalizing server with
  | nil => rfl
  | cons name rest ih =>
      rw [List.foldl_cons, ih]
      rfl

theorem srem_srem (names more : List Name) (server : Server) :
    (server.srem names).srem more = server.srem (names ++ more) := by
  unfold Server.srem
  rw [List.filter_filter]
  congr 2
  funext name
  by_cases hnames : name ∈ names <;> by_cases hmore : name ∈ more <;>
    simp [hnames, hmore]

theorem foldl_srem (groups : List (List Name)) (server : Server) :
    groups.foldl Server.srem server = server.srem groups.flatten := by
  induction groups generalizing server with
  | nil =>
      unfold Server.srem
      rw [List.filter_eq_self.mpr (by simp)]
      rfl
  | cons group rest ih =>
      rw [List.foldl_cons, ih, srem_srem]
      rfl

theorem eraseAll_append (names more : List Name) (held : Keyspace) :
    Store.eraseAll (names ++ more) held =
      Store.eraseAll more (Store.eraseAll names held) :=
  List.foldl_append

theorem foldl_multi (groups : List (List Name)) (server : Server) :
    groups.foldl (fun server batch =>
        (batch.foldl Server.unlink server).srem batch) server =
      ({ server with entries :=
        Store.eraseAll groups.flatten server.entries } : Server).srem
          groups.flatten := by
  induction groups generalizing server with
  | nil =>
      unfold Server.srem
      rw [List.filter_eq_self.mpr (by simp)]
      rfl
  | cons group rest ih =>
      rw [List.foldl_cons, ih, foldl_unlink, List.flatten_cons, eraseAll_append]
      exact srem_srem group rest.flatten { server with entries := _ }

/-- On a cluster and on a standalone server `delMany` removes the same. -/
theorem delManyCluster_eq (names : List Name) (server : Server) :
    delManyCluster names server = delManyStandalone names server := by
  unfold delManyCluster delManyStandalone
  rw [foldl_batches (by decide), foldl_srem, foldl_unlink, foldl_multi,
    flatten_batches (by decide), flatten_batches (by decide)]
  rfl

theorem lookup_eraseAll (names : List Name) (held : Keyspace) (name : Name) :
    (Store.eraseAll names held).lookup name =
      if name ∈ names then none else held.lookup name := by
  split
  · rename_i hin
    exact Store.lookup_eraseAll_of_mem hin held
  · rename_i hnot
    exact Store.lookup_eraseAll_of_not_mem hnot held

theorem mem_tracked_srem (server : Server) (members : List Name) (name : Name) :
    name ∈ (server.srem members).tracked <->
      name ∈ server.tracked ∧ name ∉ members := by
  unfold Server.srem
  rw [List.mem_filter, decide_eq_true_eq]

theorem mem_tracked_sadd (server : Server) (member name : Name) :
    name ∈ (server.sadd member).tracked <->
      name ∈ server.tracked ∨ name = member := by
  unfold Server.sadd
  split
  · rename_i hin
    constructor
    · exact Or.inl
    · intro hgiven
      rcases hgiven with hname | rfl
      · exact hname
      · exact hin
  · exact List.mem_append.trans (or_congr Iff.rfl List.mem_singleton)

theorem lookup_entries_set (server : Server) (name : Name) (val : JsString)
    (other : Name) :
    (server.set name val).entries.lookup other =
      if other = name then some val else server.entries.lookup other := by
  split
  · rename_i hname
    rw [hname]
    exact AList.lookup_insert _
  · rename_i hname
    exact AList.lookup_insert_ne hname

theorem removes_nil (server : Server) : Removes store [] server server :=
  ⟨fun _ => rfl, fun _ name => by simp⟩

theorem Removes.trans {keys more : List JsString} {server after last : Server}
    (h : Removes store keys server after) (hmore : Removes store more after last) :
    Removes store (keys ++ more) server last := by
  constructor
  · intro name
    rw [hmore.entries, h.entries, List.map_append]
    by_cases hkeys : name ∈ keys.map store.getKeyName <;>
      by_cases hrest : name ∈ more.map store.getKeyName <;>
        simp only [List.mem_append, hkeys, hrest, or_true, or_false, or_self,
          if_true, if_false]
  · intro hsets name
    rw [hmore.tracked hsets, h.tracked hsets, List.map_append, List.mem_append,
      not_or, and_assoc]

theorem removes_delete (hkeyv : store.isCluster = false -> keyv.Documented store)
    (key : JsString) (server : Server) :
    Removes store [key] server (store.delete keyv key server) := by
  cases hcluster : store.isCluster with
  | false =>
      have hdelete : store.delete keyv key server = keyv.delete key server := by
        simp [Adapter.delete, hcluster]
      rw [hdelete]
      constructor
      · intro name
        rw [(hkeyv hcluster).delete, List.map_singleton]
        simp only [List.mem_singleton]
      · intro hsets name
        rw [(hkeyv hcluster).delete_tracked hsets, List.map_singleton,
          List.mem_singleton]
  | true =>
      constructor
      · intro name
        have hentries : (store.delete keyv key server).entries =
            Store.eraseAll [store.getKeyName key] server.entries := by
          unfold Adapter.delete
          rw [hcluster]
          cases store.useRedisSets <;> rfl
        rw [hentries]
        exact lookup_eraseAll [store.getKeyName key] server.entries name
      · intro hsets name
        have htracked : (store.delete keyv key server).tracked =
            (server.srem [store.getKeyName key]).tracked := by
          simp only [Adapter.delete, hcluster, hsets, if_true]
          rfl
        rw [htracked]
        exact mem_tracked_srem server [store.getKeyName key] name

theorem removes_delManyStandalone (hsets : store.useRedisSets = true)
    (keys : List JsString) (server : Server) :
    Removes store keys server
      (delManyStandalone (keys.map (qualified store.ns)) server) := by
  unfold delManyStandalone
  rw [foldl_multi, flatten_batches (by decide), ← getKeyName_of_sets hsets]
  exact ⟨lookup_eraseAll _ server.entries,
    fun _ => mem_tracked_srem { server with entries := _ } _⟩

theorem removes_delMany (hkeyv : store.isCluster = false -> keyv.Documented store)
    (keys : List JsString) (server : Server) :
    Removes store keys server (delMany store keyv keys server) := by
  unfold delMany
  by_cases hkeys : keys = []
  · rw [if_pos hkeys, hkeys]
    exact removes_nil server
  · rw [if_neg hkeys]
    cases hsets : store.useRedisSets with
    | true =>
        have hboth := removes_delManyStandalone hsets keys server
        cases store.isCluster with
        | true =>
            rw [← delManyCluster_eq] at hboth
            exact hboth
        | false => exact hboth
    | false =>
        show Removes store keys server (keys.foldl _ server)
        clear hkeys
        induction keys generalizing server with
        | nil => exact removes_nil server
        | cons key rest ih =>
            rw [List.foldl_cons]
            exact (removes_delete hkeyv key server).trans (ih _)

end Removal

/-!
## The contract
-/

structure Holds (store : Adapter) (foreign : Contents) (server : Server)
    (m : Contents) : Prop where
  held : m = fun key => server.entries.lookup (store.getKeyName key)
  tracked : store.useRedisSets = true -> forall key, m key ≠ none ->
    store.getKeyName key ∈ server.tracked
  own : store.useRedisSets = true -> forall name, name ∈ server.tracked ->
    exists key, name = store.getKeyName key
  foreign : forall name, ¬ store.ownPrefix <+: name ->
    server.entries.lookup name = foreign name

section Provided

variable {store : Adapter} {keyv : KeyvRedis} {scanner : Scanner}
  {foreign m : Contents}
  {server : Server}

theorem ownPrefix_getKeyName (key : JsString) :
    store.ownPrefix <+: store.getKeyName key := by
  unfold Adapter.ownPrefix Adapter.getKeyName
  split
  · exact ⟨key, by simp [qualified]⟩
  · exact List.prefix_append _ _

theorem getKeyName_injective : Function.Injective store.getKeyName := by
  intro key other h
  have hqualified : forall {key other : JsString},
      qualified store.ns key = qualified store.ns other -> key = other := by
    intro key other h
    rw [← unqualified_qualified store.ns key, h, unqualified_qualified]
  unfold Adapter.getKeyName at h
  split at h
  · exact hqualified h
  · exact hqualified (List.append_cancel_left h)

theorem Holds.removed {after : Server} {keys : List JsString}
    (h : Holds store foreign server m) (hremoves : Removes store keys server after) :
    Holds store foreign after (m.remove (fun key => key ∈ keys)) := by
  have hmem : forall key, store.getKeyName key ∈ keys.map store.getKeyName <->
      key ∈ keys :=
    fun key => List.mem_map_of_injective getKeyName_injective
  refine ⟨?_, ?_, ?_, ?_⟩
  · funext key
    rw [hremoves.entries, h.held]
    simp only [Contents.remove, hmem, decide_eq_true_eq]
  · intro hsets key hkept
    rcases Contents.of_remove hkept with ⟨hheld, hkey, _⟩
    rw [hremoves.tracked hsets, hmem]
    exact ⟨h.tracked hsets key hheld, of_decide_eq_false hkey⟩
  · intro hsets name hname
    exact h.own hsets name ((hremoves.tracked hsets name).mp hname).left
  · intro name hname
    rw [hremoves.entries, if_neg, h.foreign name hname]
    intro hin
    rcases List.mem_map.mp hin with ⟨key, _, rfl⟩
    exact hname (ownPrefix_getKeyName key)

theorem lookup_set (hkeyv : store.isCluster = false -> keyv.Documented store)
    (key val : JsString) (name : Name) :
    (store.set keyv key val server).entries.lookup name =
      if name = store.getKeyName key then some val
      else server.entries.lookup name := by
  cases hcluster : store.isCluster with
  | false =>
      have hset : store.set keyv key val server = keyv.set key val server := by
        simp [Adapter.set, hcluster]
      rw [hset]
      exact (hkeyv hcluster).set key val server name
  | true =>
      have hentries : (store.set keyv key val server).entries =
          (server.set (store.getKeyName key) val).entries := by
        unfold Adapter.set
        rw [hcluster]
        cases store.useRedisSets <;> rfl
      rw [hentries]
      exact lookup_entries_set server _ val name

theorem mem_tracked_set (hkeyv : store.isCluster = false -> keyv.Documented store)
    (hsets : store.useRedisSets = true) (key val : JsString) (name : Name) :
    name ∈ (store.set keyv key val server).tracked <->
      name ∈ server.tracked ∨ name = store.getKeyName key := by
  cases hcluster : store.isCluster with
  | false =>
      have hset : store.set keyv key val server = keyv.set key val server := by
        simp [Adapter.set, hcluster]
      rw [hset]
      exact (hkeyv hcluster).set_tracked hsets key val server name
  | true =>
      simp only [Adapter.set, hcluster, hsets, if_true]
      exact mem_tracked_sadd (server.set (store.getKeyName key) val) _ name

theorem Holds.put (hkeyv : store.isCluster = false -> keyv.Documented store)
    (h : Holds store foreign server m) (key val : JsString) :
    Holds store foreign (store.set keyv key val server) (m.put key val) := by
  refine ⟨?_, ?_, ?_, ?_⟩
  · funext other
    rw [lookup_set hkeyv, h.held]
    unfold Contents.put
    by_cases hother : other = key
    · rw [if_pos hother, if_pos (congrArg store.getKeyName hother)]
    · rw [if_neg hother, if_neg (fun h => hother (getKeyName_injective h))]
  · intro hsets other hkept
    rw [mem_tracked_set hkeyv hsets]
    by_cases hother : other = key
    · exact Or.inr (congrArg store.getKeyName hother)
    · apply Or.inl
      apply h.tracked hsets
      simpa [Contents.put, hother] using hkept
  · intro hsets name hname
    rcases (mem_tracked_set hkeyv hsets key val name).mp hname with hname | hname
    · exact h.own hsets name hname
    · exact ⟨key, hname⟩
  · intro name hname
    rw [lookup_set hkeyv, if_neg]
    · exact h.foreign name hname
    · intro heq
      exact hname (heq ▸ ownPrefix_getKeyName key)

theorem mem_listKeys (hscan : scanner.Complete store)
    (h : Holds store foreign server m) {key : JsString} (hkey : m key ≠ none) :
    key ∈ listKeys store scanner server := by
  unfold listKeys
  cases hsets : store.useRedisSets with
  | true =>
      have htracked := h.tracked hsets key hkey
      rw [getKeyName_of_sets hsets] at htracked
      exact List.mem_map.mpr ⟨_, htracked, unqualified_qualified store.ns key⟩
  | false =>
      have hname : store.getKeyName key =
          store.named ++ qualified store.ns key := by
        rw [Adapter.getKeyName, hsets]
        rfl
      have hexist : server.exist (store.getKeyName key) = true := by
        rw [h.held] at hkey
        exact Option.isSome_iff_ne_none.mpr hkey
      rcases hscan server _ ⟨_, hname.symm⟩ hexist with ⟨node, hnode, hfound⟩
      apply List.mem_map.mpr
      refine ⟨qualified store.ns key, ?_, unqualified_qualified store.ns key⟩
      apply List.mem_map.mpr
      refine ⟨store.getKeyName key, List.mem_flatMap.mpr ⟨node, hnode, hfound⟩, ?_⟩
      rw [hname, List.drop_left]

theorem Holds.clearedStandalone (hkeyv : keyv.Documented store)
    (h : Holds store foreign server m) :
    Holds store foreign (keyv.clear server) Contents.empty := by
  have hforeign : forall name, ¬ store.ownPrefix <+: name ->
      ¬ (if store.useRedisSets then name ∈ server.tracked
        else store.named <+: name) := by
    intro name hname
    split
    · rename_i hsets
      intro hin
      rcases h.own hsets name hin with ⟨key, rfl⟩
      exact hname (ownPrefix_getKeyName key)
    · rename_i hsets
      rw [Adapter.ownPrefix, if_neg hsets] at hname
      exact hname
  refine ⟨?_, ?_, ?_, ?_⟩
  · funext key
    apply Eq.symm
    by_cases hfound : (if store.useRedisSets then
        store.getKeyName key ∈ server.tracked
      else store.named <+: store.getKeyName key)
    · exact hkeyv.clear server _ hfound
    · rw [hkeyv.clear_others server _ hfound]
      split at hfound
      · -- what is not tracked holds nothing
        rename_i hsets
        have hnone : m key = none :=
          Decidable.byContradiction fun hkey => hfound (h.tracked hsets key hkey)
        rw [h.held] at hnone
        exact hnone
      · rename_i hsets
        have hprefix := @ownPrefix_getKeyName store key
        rw [Adapter.ownPrefix, if_neg hsets] at hprefix
        exact absurd hprefix hfound
  · exact fun _ key hkey => absurd rfl hkey
  · intro hsets name hname
    rw [hkeyv.clear_tracked hsets] at hname
    exact absurd hname List.not_mem_nil
  · intro name hname
    rw [hkeyv.clear_others server name (hforeign name hname)]
    exact h.foreign name hname

theorem Holds.cleared (hkeyv : store.isCluster = false -> keyv.Documented store)
    (hscan : scanner.Complete store) (h : Holds store foreign server m) :
    Holds store foreign (clear store keyv scanner server) Contents.empty := by
  unfold clear
  split
  · rw [← Contents.remove_all
      (fun key hkey => decide_eq_true (mem_listKeys hscan h hkey))]
    exact h.removed (removes_delMany hkeyv _ server)
  · rename_i hcluster
    exact h.clearedStandalone (hkeyv (Bool.eq_false_of_not_eq_true hcluster))

theorem redisProvider_contract
    (hkeyv : store.isCluster = false -> keyv.Documented store)
    (hscan : scanner.Complete store) :
    Contract (redisProvider store keyv scanner) (Holds store foreign) := by
  refine ⟨⟨?_, ?_, ?_, ?_, ?_⟩, ?_, ?_⟩
  · exact fun _ _ _ => rfl
  · intro key server m h
    refine ⟨?_, h⟩
    rw [h.held]
    rfl
  · exact fun key val maxAge server m h => ⟨rfl, h.put hkeyv key val⟩
  · intro key server m h
    refine ⟨rfl, ?_⟩
    have hsame : m.remove (fun other => other ∈ [key]) =
        m.remove (fun other => other = key) :=
      Contents.remove_congr (by simp)
    rw [← hsame]
    exact h.removed (removes_delete hkeyv key server)
  · exact fun _ server m h =>
      ⟨listKeys store scanner server, rfl, fun _ => mem_listKeys hscan h, h⟩
  · exact fun keys server m h => ⟨rfl, h.removed (removes_delMany hkeyv keys server)⟩
  · exact fun server m h => ⟨rfl, h.cleared hkeyv hscan⟩

theorem redisAround_fair : (redisAround store).Fair (Holds store foreign) := by
  constructor
  · intro key server m h
    have hlookup : forall name,
        (server.unlink (store.getKeyName key)).entries.lookup name =
          if name = store.getKeyName key then none
          else server.entries.lookup name := by
      intro name
      by_cases hname : name = store.getKeyName key
      · rw [if_pos hname, hname]
        exact AList.lookup_erase _ _
      · rw [if_neg hname]
        exact AList.lookup_erase_ne hname
    refine ⟨?_, ?_, h.own, ?_⟩
    · funext other
      show _ = (server.unlink (store.getKeyName key)).entries.lookup _
      rw [hlookup, h.held]
      unfold Contents.remove
      by_cases hother : other = key
      · rw [if_pos (decide_eq_true hother), if_pos (congrArg store.getKeyName hother)]
      · rw [if_neg (by simpa using hother),
          if_neg (fun h => hother (getKeyName_injective h))]
    · intro hsets other hkept
      apply h.tracked hsets
      intro hnone
      apply hkept
      unfold Contents.remove
      rw [hnone, ite_self]
    · intro name hname
      show (server.unlink (store.getKeyName key)).entries.lookup name = _
      rw [hlookup, if_neg]
      · exact h.foreign name hname
      · intro heq
        exact hname (heq ▸ ownPrefix_getKeyName key)
  · intro server m h
    refine ⟨h.held, ?_, ?_, h.foreign⟩
    · intro hsets key hkey
      apply List.mem_filter.mpr
      refine ⟨h.tracked hsets key hkey, ?_⟩
      rw [h.held] at hkey
      exact Option.isSome_iff_ne_none.mpr hkey
    · exact fun hsets name hname => h.own hsets name (List.mem_filter.mp hname).left

end Provided

/-!
## Stores over redis
-/

section Stores

variable {strategy : Config.RelatedStrategy} {lower : CaseMapping}
  {keysPrefix : JsString} {store : Adapter} {keyv : KeyvRedis}
  {scanner : Scanner}

/--
On a standalone server or a cluster, with the tracking set or without it, a
store over redis shows what a store over a map shows, and what other adapters
keep on the server stays as it was.
-/
theorem redis_showsRun (hkeyv : store.isCluster = false -> keyv.Documented store)
    (hscan : scanner.Complete store) {server : Server}
    {m : Contents} {log : Store.PurgeLog}
    (hstart : Holds store (fun name => server.entries.lookup name) server m)
    (happenings : List Store.Happening) :
    Store.ShowsRun strategy lower keysPrefix (redisProvider store keyv scanner)
        (redisAround store) happenings { log, held := server } { log, held := m } ∧
      forall name, ¬ store.ownPrefix <+: name ->
        (happenings.foldl (Store.Happening.perform strategy lower
            (Store.prefixed keysPrefix) (redisProvider store keyv scanner)
            (redisAround store))
          { log, held := server }).held.entries.lookup name =
            server.entries.lookup name := by
  have hs : Store.Agrees (Holds store (fun name => server.entries.lookup name))
      { log, held := server } { log, held := m } :=
    ⟨rfl, hstart⟩
  have hcontract := @redisProvider_contract store keyv scanner
    (fun name => server.entries.lookup name) hkeyv hscan
  have hrun := @Store.performAll_agrees _ strategy lower _ _ keysPrefix
    _ _ _ hcontract redisAround_fair happenings hs
  exact ⟨Store.showsRun_of_contract hcontract redisAround_fair happenings hs,
    hrun.held.foreign⟩

end Stores

/-!
A standalone server without the tracking set, which another adapter uses too.
-/

def clearedNames (store : Adapter) (server : Server) : List Name :=
  if store.useRedisSets then server.tracked
  else server.entries.keys.filter (fun name => store.named.isPrefixOf name)

/-- The MULTIs that these calls send. -/
def multis (store : Adapter) : KeyvRedis where
  set key val server :=
    let name := store.getKeyName key
    if store.useRedisSets then (server.set name val).sadd name
    else server.set name val
  delete key server :=
    let name := store.getKeyName key
    if store.useRedisSets then (server.unlink name).srem [name]
    else server.unlink name
  clear server :=
    { entries := Store.eraseAll (clearedNames store server) server.entries
      tracked := if store.useRedisSets then [] else server.tracked }

theorem multis_documented (store : Adapter) : (multis store).Documented store := by
  have hset : forall key val server, ((multis store).set key val server).entries =
      (server.set (store.getKeyName key) val).entries := by
    intro key val server
    unfold multis
    cases store.useRedisSets <;> rfl
  have hdelete : forall key server, ((multis store).delete key server).entries =
      Store.eraseAll [store.getKeyName key] server.entries := by
    intro key server
    unfold multis
    cases store.useRedisSets <;> rfl
  refine ⟨?_, ?_, ?_, ?_, ?_, ?_, ?_⟩
  · intro key val server name
    rw [hset]
    exact lookup_entries_set server _ val name
  · intro hsets key val server name
    simp only [multis, hsets, if_true]
    exact mem_tracked_sadd (server.set (store.getKeyName key) val) _ name
  · intro key server name
    rw [hdelete, lookup_eraseAll]
    simp only [List.mem_singleton]
  · intro hsets key server name
    simp only [multis, hsets, if_true]
    rw [mem_tracked_srem, List.mem_singleton]
    rfl
  · intro server name hname
    show (Store.eraseAll (clearedNames store server) server.entries).lookup name = none
    rw [lookup_eraseAll]
    split
    · rfl
    · -- a name that has the prefix and is not found is not there
      rename_i hnot
      apply AList.lookup_eq_none.mpr
      intro hin
      apply hnot
      unfold clearedNames
      split at hname
      · rename_i hsets
        rw [if_pos hsets]
        exact hname
      · rename_i hsets
        rw [if_neg hsets]
        exact List.mem_filter.mpr
          ⟨AList.mem_keys.mpr hin, List.isPrefixOf_iff_prefix.mpr hname⟩
  · intro server name hname
    apply Store.lookup_eraseAll_of_not_mem
    intro hin
    apply hname
    unfold clearedNames at hin
    split
    · rename_i hsets
      rw [if_pos hsets] at hin
      exact hin
    · rename_i hsets
      rw [if_neg hsets] at hin
      exact List.isPrefixOf_iff_prefix.mp (List.mem_filter.mp hin).right
  · intro hsets server
    exact if_pos hsets

def plainAdapter : Adapter where
  ns := "keyv".toList
  ns_ne_nil := by decide
  ns_plain := List.forall_iff_forall_mem.mp (by decide)
  isCluster := false
  useRedisSets := false

def plainScanner : Scanner where
  masters := 1
  scan server _ := [server.entries.keys]

theorem plainScanner_complete : plainScanner.Complete plainAdapter := by
  intro server name _ hexist
  refine ⟨0, List.mem_singleton.mpr rfl, ?_⟩
  apply List.mem_append_left
  apply AList.mem_keys.mp
  exact AList.lookup_isSome.mp hexist

def otherEntry : Server where
  entries := AList.singleton "session:1".toList "alice".toList
  tracked := []

def plainRun : List Store.Happening :=
  [Store.Happening.call (Store.Operation.set "/a".toList JsonValue.null 0 none),
    Store.Happening.tidy, Store.Happening.call Store.Operation.reset]

theorem otherEntry_holds :
    Holds plainAdapter (fun name => otherEntry.entries.lookup name) otherEntry
      Contents.empty := by
  refine ⟨?_, fun h => absurd h Bool.false_ne_true,
    fun h => absurd h Bool.false_ne_true, fun _ _ => rfl⟩
  funext key
  apply Eq.symm
  apply AList.lookup_eq_none.mpr
  intro hmem
  have hname : plainAdapter.getKeyName key = "session:1".toList :=
    List.mem_singleton.mp (AList.mem_keys.mp hmem)
  have hthird : some 't' = some 's' := congrArg (fun name => name[2]?) hname
  exact absurd hthird (by decide)

theorem redis_showsRun_plain :
    Store.ShowsRun Store.noContentTypes CaseMapping.latin1 "blog".toList
        (redisProvider plainAdapter (multis plainAdapter) plainScanner)
        (redisAround plainAdapter) plainRun
        { log := Store.PurgeLog.init, held := otherEntry }
        { log := Store.PurgeLog.init, held := Contents.empty } ∧
      (plainRun.foldl (Store.Happening.perform Store.noContentTypes
            CaseMapping.latin1 (Store.prefixed "blog".toList)
            (redisProvider plainAdapter (multis plainAdapter) plainScanner)
            (redisAround plainAdapter))
          { log := Store.PurgeLog.init
            held := otherEntry }).held.entries.lookup "session:1".toList =
        some "alice".toList := by
  rcases @redis_showsRun Store.noContentTypes CaseMapping.latin1 "blog".toList
      plainAdapter (multis plainAdapter) plainScanner
      (fun _ => multis_documented plainAdapter) plainScanner_complete otherEntry
      Contents.empty Store.PurgeLog.init otherEntry_holds plainRun with
    ⟨hshows, hforeign⟩
  refine ⟨hshows, ?_⟩
  rw [hforeign "session:1".toList (by decide)]
  exact AList.lookup_insert ∅

end Redis
end RestCache
